import LayeredBundles.Proofs.Walks
import LayeredBundles.Proofs.Utf8
import LayeredBundles.Proofs.Words

/-! # What the errors of the reader say

Offsets, sizes and counts in a binary are whatever its bytes are, so nothing about them can be taken for granted. Each
function of the reader is told by what its results satisfy and what its errors say: a number is below the power of its
width, an error of truncation is about bytes that are not there, and an overflow is one of offsets that do overflow.
Rows have less than `2 ^ 16` bytes and indices are below `2 ^ 32`, so their products never overflow.

* **`ElfFault.TrueOf`** — what an error says of a file is so;
* **`Elf.Named`** — a name stands in a file, up to a zero byte;
* **`Elf.Ends`** — what the results and the errors of a reading satisfy;
* **`Elf.ends_needed`** — names and errors of the whole reader, by each function in turn;
* **`Elf.needed_truthful`** — no run of the reader goes wrong, its loop is bounded by the bytes, its errors are true,
  and its names are in the file. -/

namespace LayeredBundles

/-- `f.TrueOf d`: what an error says of a file is so. No error speaks of a product of an index and the size of a row,
for none is too large. -/
inductive ElfFault.TrueOf (d : ByteArray) : ElfFault → Prop where
  /-- The file is shorter than an identification, or begins otherwise than an ELF file. -/
  | notElf (start : d.size < 16 ∨ d.toList.take 4 ≠ [0x7f, 0x45, 0x4c, 0x46]) : TrueOf d .notElf
  /-- Eight bytes are not there from that offset on, or no zero byte is. -/
  | truncated {offset : Nat} (short : d.size < offset + 8 ∨ 0 ∉ d.toList.drop offset) : TrueOf d (.truncated offset)
  /-- The class is neither of the two that there are. -/
  | unknownClass (narrow : Bytes.byteAt d 4 ≠ 1) (wide : Bytes.byteAt d 4 ≠ 2) :
      TrueOf d (.unknownClass (Bytes.byteAt d 4).toNat)
  /-- The byte order is neither of the two that there are. -/
  | unknownOrder (little : Bytes.byteAt d 5 ≠ 1) (big : Bytes.byteAt d 5 ≠ 2) :
      TrueOf d (.unknownOrder (Bytes.byteAt d 5).toNat)
  /-- The sum has more than 64 bits. -/
  | offsetOverflow {base delta : Nat} (large : UInt64.size ≤ base + delta) : TrueOf d (.offsetOverflow base delta)
  /-- The program headers name a dynamic table, and no row of it says where its strings are. -/
  | noStringTable {v : Elf.View} {h : Elf.Header} {segs : List Elf.Segment} {s : Elf.Segment} {rows : List (Nat × Nat)}
      (view : Elf.viewOf d = .ok v) (header : Elf.header v = .ok h) (segments : Elf.segments v h = .ok segs)
      (segment : segs.find? (·.kind = Elf.dynamic) = some s) (table : Elf.tableRows v s.offset s.size = .ok rows)
      (strings : ∀ row ∈ rows, row.1 ≠ Elf.stringTableTag) : TrueOf d .noStringTable

namespace Elf

variable {α β : Type} {d : ByteArray} {v : View} {P : ElfFault → Prop} {Q R : α → Prop} {S : β → Prop}

/-! ## (1) Results and errors -/

/-- `Ends P Q a`: a result satisfies `Q`, and an error `P`. -/
def Ends (P : ElfFault → Prop) (Q : α → Prop) : Read α → Prop
  | .ok x => Q x
  | .error f => P f

namespace Ends

variable {a b : Read α}

/-- What follows a result is asked for only if there was one. -/
theorem bind {k : α → Read β} (h : Ends P Q a) (hk : ∀ x, a = .ok x → Q x → Ends P S (k x)) : Ends P S (a >>= k) := by
  cases a with
  | ok x => exact hk x rfl h
  | error f => exact h

/-- Less may be said of the result. -/
theorem mono (h : Ends P Q a) (hQ : ∀ x, Q x → R x) : Ends P R a := by
  cases a with
  | ok x => exact hQ x h
  | error f => exact h

/-- Both branches of a choice are asked for. -/
theorem ite {p : Prop} [Decidable p] (h : Ends P Q a) (h' : Ends P Q b) : Ends P Q (if p then a else b) := by
  split
  · exact h
  · exact h'

/-- If each reading ends so, the list holds only such results. -/
theorem mapM {γ : Type} {k : γ → Read α} {xs : List γ} (h : ∀ x ∈ xs, Ends P Q (k x)) :
    Ends P (fun ys => ∀ y ∈ ys, Q y) (xs.mapM k) := by
  induction xs with
  | nil => exact fun y hy => nomatch hy
  | cons x xs ih =>
    rw [List.mapM_cons]
    refine (h x List.mem_cons_self).bind fun y _ hy => ?_
    exact (ih fun x' hx' => h x' (List.mem_cons_of_mem _ hx')).bind fun ys _ hys => List.forall_mem_cons.2 ⟨hy, hys⟩

/-- What is said of results holds of one that was reached. -/
theorem of_ok {x : α} (h : Ends P Q a) (ha : a = .ok x) : Q x := by
  subst ha
  exact h

/-- What is said of errors holds of one that was given. -/
theorem of_error {f : ElfFault} (h : Ends P Q a) (ha : a = .error f) : P f := by
  subst ha
  exact h

end Ends

/-! ## (2) Fields -/

/-- An overflow is told only of numbers that do overflow. -/
theorem ends_add (d : ByteArray) (base delta : Nat) : Ends (ElfFault.TrueOf d) (fun _ => True) (add base delta) := by
  unfold add
  split
  · exact trivial
  · next hlarge => exact .offsetOverflow (Nat.not_lt.1 hlarge)

/-- Rows have less than `2 ^ 16` bytes, and indices are below `2 ^ 32`. -/
theorem ends_elementAt (d : ByteArray) (base : Nat) {index stride : Nat} (hindex : index < 256 ^ 4)
    (hstride : stride < 256 ^ 2) : Ends (ElfFault.TrueOf d) (fun _ => True) (elementAt base index stride) := by
  have hlt : index * stride < UInt64.size :=
    Nat.lt_of_le_of_lt (Nat.mul_le_mul (Nat.le_of_lt hindex) (Nat.le_of_lt hstride)) (by decide)
  rw [elementAt, if_pos hlt]
  exact ends_add d base _

/-- At most eight bytes are read at a time, and they are there. -/
theorem ends_number {width : Nat} (hwidth : width ≤ 8) (offset : Nat) :
    Ends (ElfFault.TrueOf v.data) (fun n => n < 256 ^ width ∧ offset + width ≤ v.data.size)
      (v.number width offset) := by
  rw [Words.number_eq]
  by_cases hinside : offset + width ≤ v.data.size
  · rw [Bytes.slice?_of_le hinside]
    have hsize : (v.data.extract offset (offset + width)).toList.length = width := by
      rw [Bytes.length_toList, ByteArray.size_extract]
      omega
    have hbig := Words.bigOf_lt (v.data.extract offset (offset + width)).toList
    have hlittle := Bytes.littleOf_lt (v.data.extract offset (offset + width)).toList
    rw [hsize] at hbig hlittle
    refine ⟨?_, hinside⟩
    split
    · exact hbig
    · exact hlittle
  · rw [Bytes.slice?_of_gt (Nat.not_le.1 hinside)]
    exact .truncated (.inl (by omega))

/-- A number is read, and then something is done with it. -/
theorem Ends.read {width offset : Nat} {k : Nat → Read β} (hwidth : width ≤ 8)
    (hk : ∀ n, n < 256 ^ width → Ends (ElfFault.TrueOf v.data) S (k n)) :
    Ends (ElfFault.TrueOf v.data) S (v.number width offset >>= k) :=
  (ends_number hwidth offset).bind fun n _ hn => hk n hn.1

/-- A sum of offsets is taken, and then something is done with it. -/
theorem Ends.step {base delta : Nat} {k : Nat → Read β} (hk : ∀ n, Ends (ElfFault.TrueOf d) S (k n)) :
    Ends (ElfFault.TrueOf d) S (add base delta >>= k) :=
  (ends_add d base delta).bind fun n _ _ => hk n

/-- `Named d n`: the name is what the bytes of a file up to a zero byte say, and there is a byte before it. -/
def Named (d : ByteArray) (n : String) : Prop :=
  ∃ front run rest, d.toList = front ++ run ++ 0 :: rest ∧ 0 ∉ run ∧ n = Utf8.lossy (Bytes.ofList run)

/-- Names have no character of code zero. -/
theorem Named.zero_notMem {n : String} (h : Named d n) : '\x00' ∉ n.toList := by
  obtain ⟨front, run, rest, -, hrun, rfl⟩ := h
  rw [Utf8.lossy, String.toList_ofList, Bytes.toList_ofList]
  exact Utf8.zero_notMem_chars hrun

/-- **A text that is read** is one of the file, up to its zero byte; else the file ends there. -/
theorem ends_text (v : View) (offset : Nat) : Ends (ElfFault.TrueOf v.data) (Named v.data) (v.text offset) := by
  rcases htext : v.text offset with f | n
  · obtain rfl := text_error htext
    refine .truncated ?_
    by_contra hthere
    simp only [not_or, Nat.not_lt, not_not] at hthere
    obtain ⟨run, rest, hrun, hnot⟩ := List.eq_append_cons_of_mem hthere.2
    rw [text_eq_ok.2 ⟨by omega, run, rest, hrun, hnot, rfl⟩] at htext
    cases htext
  · obtain ⟨-, run, rest, hrun, hnot, rfl⟩ := text_eq_ok.1 htext
    refine ⟨v.data.toList.take offset, run, rest, ?_, hnot, rfl⟩
    rw [List.append_assoc, ← hrun, List.take_append_drop]

/-! ## (3) Headers -/

/-- The magic number is looked for in the first four bytes. -/
theorem hasAt_magic (hsize : ¬ d.size < 16) :
    Bytes.hasAt d 0 magic = true ↔ d.toList.take 4 = [0x7f, 0x45, 0x4c, 0x46] := by
  rw [Bytes.hasAt, show magic.size = 4 from rfl, Bytes.slice?_of_le (by omega), Option.any_some, Bytes.same_iff,
    ← Bytes.toList_inj, Bytes.toList_extract, magic, Bytes.toList_ofList]
  exact eq_comm

/-- That the class or the byte order is unknown is told of the byte that says so. -/
theorem ends_viewOf (d : ByteArray) : Ends (ElfFault.TrueOf d) (fun v => v.data = d) (viewOf d) := by
  unfold viewOf
  by_cases hsize : d.size < 16
  · rw [if_pos (by simp [hsize])]
    exact .notElf (.inl hsize)
  by_cases hmagic : Bytes.hasAt d 0 magic = true
  · rw [if_neg (by simp [hsize, hmagic])]
    have hclass := @ElfFault.TrueOf.unknownClass d
    have horder := @ElfFault.TrueOf.unknownOrder d
    simp only [ne_eq, ← UInt8.toNat_inj] at hclass horder
    -- The class and the byte order are one or two, else the file is refused.
    generalize (Bytes.byteAt d 4).toNat = c at hclass ⊢
    generalize (Bytes.byteAt d 5).toNat = o at horder ⊢
    rcases c with _ | _ | _ | c
    · exact hclass (by decide) (by decide)
    · rcases o with _ | _ | _ | o
      · exact horder (by decide) (by decide)
      · rfl
      · rfl
      · exact horder (by simp) (by simp)
    · rcases o with _ | _ | _ | o
      · exact horder (by decide) (by decide)
      · rfl
      · rfl
      · exact horder (by simp) (by simp)
    · exact hclass (by simp) (by simp)
  · rw [if_pos (by simp [hmagic])]
    exact .notElf (.inr (mt (hasAt_magic hsize).2 hmagic))

/-- The numbers of a header that have two bytes. -/
structure Header.Narrow (h : Header) : Prop where
  /-- The size of a program header. -/
  segmentSize : h.segmentSize < 256 ^ 2
  /-- The number of program headers. -/
  segmentCount : h.segmentCount < 256 ^ 2
  /-- The size of a section header. -/
  sectionSize : h.sectionSize < 256 ^ 2
  /-- The number of section headers. -/
  sectionCount : h.sectionCount < 256 ^ 2

/-- The numbers of a header fit their fields; else the file ends within it. -/
theorem ends_header (v : View) : Ends (ElfFault.TrueOf v.data) Header.Narrow (header v) := by
  refine .ite ?_ ?_
  all_goals
    exact .read (by decide) fun _ _ => .read (by decide) fun _ _ => .read (by decide) fun _ hsegment =>
      .read (by decide) fun _ hsegments => .read (by decide) fun _ hsection => .read (by decide) fun _ hsections =>
      ⟨hsegment, hsegments, hsection, hsections⟩

/-- A segment is missing only where the file ends. -/
theorem ends_segmentAt (v : View) (base : Nat) :
    Ends (ElfFault.TrueOf v.data) (fun _ => True) (segmentAt v base) := by
  refine .read (by decide) fun _ _ => .ite ?_ ?_
  all_goals
    exact .step fun _ => .read (by decide) fun _ _ => .step fun _ => .read (by decide) fun _ _ => .step fun _ =>
      .read (by decide) fun _ _ => trivial

/-- So is the table of the segments, or the place of one of them overflows. -/
theorem ends_segments {h : Header} (hnarrow : h.Narrow) :
    Ends (ElfFault.TrueOf v.data) (fun segs => ∀ s ∈ segs, True) (segments v h) := by
  refine .mapM fun i hi => ?_
  have hindex : i < 256 ^ 4 := Nat.lt_trans (Nat.lt_trans (List.mem_range.1 hi) hnarrow.segmentCount) (by decide)
  exact (ends_elementAt _ _ hindex hnarrow.segmentSize).bind fun base _ _ => ends_segmentAt v base

/-! ## (4) The dynamic table -/

/-- A word of the file has eight bytes at most. -/
theorem wordSize_le (v : View) : v.wordSize ≤ 8 := by
  unfold View.wordSize
  split <;> decide

/-- A sum that was reached is the sum. -/
theorem add_eq_ok {base delta n : Nat} (h : add base delta = .ok n) : n = base + delta := by
  unfold add at h
  split at h <;> cases h
  rfl

/-- **The rows that are read lie inside the bytes**, one behind the other. -/
theorem ends_rowsFrom (v : View) (rows offset : Nat) : Ends (ElfFault.TrueOf v.data)
    (fun table => table.length * (2 * v.wordSize) ≤ v.data.size - offset) (rowsFrom v rows offset) := by
  have hnone : ([] : List (Nat × Nat)).length * (2 * v.wordSize) ≤ v.data.size - offset := by simp
  induction rows generalizing offset with
  | zero => exact .step fun _ => hnone
  | succ rows ih =>
    refine (ends_number (wordSize_le v) offset).bind fun tag _ _ => .ite hnone ?_
    refine (ends_add _ _ _).bind fun at' hat _ => (ends_number (wordSize_le v) at').bind fun value _ hvalue => ?_
    refine (ends_add _ _ _).bind fun next hnext _ => (ih next (by simp)).bind fun rest _ hrest => ?_
    have hend := hvalue.2
    rw [add_eq_ok hat] at hend
    rw [add_eq_ok hnext] at hrest
    change (rest.length + 1) * (2 * v.wordSize) ≤ _
    rw [Nat.succ_mul]
    omega

/-- **No table has more rows than the bytes hold**, whatever its size is said to be. -/
theorem ends_tableRows (v : View) (offset size : Nat) : Ends (ElfFault.TrueOf v.data)
    (fun table => table.length ≤ v.data.size / (2 * v.wordSize)) (tableRows v offset size) := by
  refine .step fun _ => (ends_rowsFrom v _ offset).mono fun table htable => ?_
  rw [Nat.le_div_iff_mul_le (Nat.mul_pos (by decide) (Words.wordSize_pos v))]
  exact Nat.le_trans htable (Nat.sub_le _ _)

/-- That there are no strings is told only of a dynamic segment whose rows do not tell where they are. -/
theorem ends_segmentTable {h : Header} {segs : List Segment} {s : Segment} (hview : viewOf v.data = .ok v)
    (hheader : header v = .ok h) (hsegs : segments v h = .ok segs) (hs : segs.find? (·.kind = dynamic) = some s) :
    Ends (ElfFault.TrueOf v.data) (fun _ => True) (segmentTable v s) := by
  refine (ends_tableRows v s.offset s.size).bind fun rows hrows _ => ?_
  split
  · exact trivial
  · next hnone => exact .noStringTable hview hheader hsegs hs hrows (by simpa using List.find?_eq_none.1 hnone)

/-- The errors about a dynamic section are true. -/
theorem ends_sectionTable {h : Header} (hnarrow : h.Narrow) (base : Nat) :
    Ends (ElfFault.TrueOf v.data) (fun _ => True) (sectionTable v h base) := by
  refine .ite ?_ ?_
  all_goals
    refine .step fun _ => .read (by decide) fun offset _ => .step fun _ => .read (by decide) fun size _ => ?_
    refine .step fun _ => .read (by decide) fun link hlink => ?_
    refine (ends_elementAt _ _ hlink hnarrow.sectionSize).bind fun linked _ _ => .step fun _ => ?_
    exact .read (by decide) fun strings _ => (ends_tableRows v offset size).bind fun _ _ _ => trivial

/-- The errors of the search among the sections are true, for as many sections as a header can count. -/
theorem ends_findSection {h : Header} (hnarrow : h.Narrow) {count i : Nat} (hcount : i + count ≤ 256 ^ 4) :
    Ends (ElfFault.TrueOf v.data) (fun _ => True) (findSection v h count i) := by
  induction count generalizing i with
  | zero => exact trivial
  | succ count ih =>
    refine (ends_elementAt _ _ (by omega) hnarrow.sectionSize).bind fun base _ _ => .step fun _ => ?_
    refine .read (by decide) fun type _ => .ite ?_ (ih (by omega))
    exact (ends_sectionTable hnarrow base).bind fun _ _ _ => trivial

/-- So are those of the search for a table, in the segments first. -/
theorem ends_findTable {h : Header} (hview : viewOf v.data = .ok v) (hheader : header v = .ok h) (hnarrow : h.Narrow) :
    Ends (ElfFault.TrueOf v.data) (fun _ => True) (findTable v h) := by
  have hsections : Ends (ElfFault.TrueOf v.data) (fun _ => True) (findSection v h h.sectionCount 0) :=
    ends_findSection hnarrow (by
      have := hnarrow.sectionCount
      omega)
  refine (ends_segments hnarrow).bind fun segs hsegs _ => ?_
  split
  · next s hs =>
    refine (ends_segmentTable hview hheader hsegs hs).bind fun table _ _ => ?_
    dsimp only
    split
    · exact trivial
    · exact hsections
  · exact hsections

/-- The names that are read are texts of the file. -/
theorem ends_names (v : View) (strings : Nat) (entries : List (Nat × Nat)) :
    Ends (ElfFault.TrueOf v.data) (fun ns => ∀ n ∈ ns, Named v.data n) (names v strings entries) :=
  .mapM fun _ _ => .step fun offset => ends_text v offset

/-! ## (5) Whole files -/

/-- No name is told twice. -/
theorem nodup_distinct (ns : List String) : (distinct ns).Nodup := by
  have hfold : ∀ found : List String, found.Nodup →
      (ns.foldl (fun found n => if n = "" || found.contains n then found else found ++ [n]) found).Nodup := by
    induction ns with
    | nil => exact fun found h => h
    | cons n ns ih =>
      intro found h
      refine ih _ ?_
      dsimp only
      split
      · exact h
      · next hnew =>
        simp only [Bool.or_eq_true, List.contains_eq_mem, decide_eq_true_eq, not_or] at hnew
        exact List.nodup_append.2 ⟨h, List.pairwise_singleton _ n, fun m hm m' hm' heq =>
          hnew.2 (List.mem_singleton.1 hm' ▸ heq ▸ hm)⟩
  exact hfold [] List.nodup_nil

/-- **Names are told apart, are not empty and stand in the file; errors are true.** -/
theorem ends_needed (d : ByteArray) : Ends (ElfFault.TrueOf d)
    (fun ns => ns.Nodup ∧ ∀ n ∈ ns, n ≠ "" ∧ Named d n) (needed d) := by
  refine (ends_viewOf d).bind fun v hview hv => ?_
  subst hv
  refine (ends_header v).bind fun h hheader hnarrow => (ends_findTable hview hheader hnarrow).bind fun table _ _ => ?_
  split
  · exact ⟨List.nodup_nil, fun n hn => nomatch hn⟩
  · refine (ends_names v _ _).bind fun ns _ hns => ⟨nodup_distinct ns, fun n hn => ?_⟩
    obtain ⟨hn, hne⟩ := mem_distinct.1 hn
    exact ⟨hne, hns n hn⟩

/-- A file that is too short or has other first bytes is no ELF file. -/
theorem needed_of_notElf (h : d.size < 16 ∨ d.toList.take 4 ≠ [0x7f, 0x45, 0x4c, 0x46]) :
    needed d = .error .notElf := by
  have hview : viewOf d = .error .notElf := by
    by_cases hsize : d.size < 16
    · simp [viewOf, hsize]
    · simp [viewOf, mt (hasAt_magic hsize).1 (h.resolve_left hsize)]
  rw [needed, hview]
  rfl

/-- **The reader is safe, and its errors are true.** For every file:

1. a run on machine words ends with names or with an error of the reader, so it makes no access outside the bytes and
  takes no difference below zero; with no more bytes than words can count it gives what the reader gives;
2. the loop over a dynamic table collects at most as many rows as the bytes hold, wherever the table is said to stand
  and to end and however the loop ends; so does the reader;
3. the file is taken for no ELF file exactly if it has less than 16 bytes or begins otherwise;
4. every error is true of the file;
5. names are told apart and not empty, have no character of code zero, and are what the bytes up to a zero byte say. -/
theorem needed_truthful (d : ByteArray) :
    ((∀ e, Words.needed d = .error e → ∃ f, e = .fault f) ∧
      (d.size < UInt64.size → Words.needed d = (needed d).mapError .fault)) ∧
    (∀ v : View, v.data = d →
      (∀ stop pos, (Words.collect v stop pos []).1.length ≤ d.size / (if v.wide then 16 else 8)) ∧
      ∀ offset size rows, tableRows v offset size = .ok rows → rows.length ≤ d.size / (if v.wide then 16 else 8)) ∧
    (needed d = .error .notElf ↔ d.size < 16 ∨ d.toList.take 4 ≠ [0x7f, 0x45, 0x4c, 0x46]) ∧
    (∀ f, needed d = .error f → f.TrueOf d) ∧
    (∀ ns, needed d = .ok ns → ns.Nodup ∧ ∀ n ∈ ns, n ≠ "" ∧ '\x00' ∉ n.toList ∧ ∃ front run rest,
      d.toList = front ++ run ++ 0 :: rest ∧ 0 ∉ run ∧ n = Utf8.lossy (Bytes.ofList run)) := by
  have hends := ends_needed d
  refine ⟨⟨fun e he => (Words.mirrors_needed d).exists_fault he, (Words.mirrors_needed d).eq_mapError⟩, ?_, ?_,
    fun f hf => hends.of_error hf, fun ns hns => ?_⟩
  · rintro v rfl
    -- A row is two words.
    have hrow : 2 * v.wordSize = if v.wide then 16 else 8 := by
      unfold View.wordSize
      split <;> rfl
    refine ⟨fun stop pos => ?_, fun offset size rows hrows => hrow ▸ (ends_tableRows v offset size).of_ok hrows⟩
    have hlength := Words.length_collect (v := v) stop pos []
    rw [List.length_nil, Nat.zero_mul, Nat.zero_add, Words.toNat_rowSize] at hlength
    rw [← hrow, Nat.le_div_iff_mul_le (Nat.mul_pos (by decide) (Words.wordSize_pos v))]
    exact Nat.le_trans hlength (Nat.sub_le _ _)
  · refine ⟨fun h => ?_, needed_of_notElf⟩
    obtain ⟨start⟩ := hends.of_error h
    exact start
  · obtain ⟨hnodup, hnames⟩ := hends.of_ok hns
    exact ⟨hnodup, fun n hn => ⟨(hnames n hn).1, (hnames n hn).2.zero_notMem, (hnames n hn).2⟩⟩

/-- A binary with one section, said to be a dynamic table of four gigabytes that begins eight bytes before the end. -/
def hugeTable : List UInt8 :=
  (singleSection.take 72 ++ List.replicate 4 255 ++ singleSection.drop 76).take 92

/-- One row is read, and the next one is not there. -/
theorem hugeTable_truncated :
    let d := Bytes.ofList hugeTable
    d.size < UInt64.size ∧ Words.needed d = .error (.fault (.truncated 92)) ∧ (ElfFault.truncated 92).TrueOf d := by
  intro d
  have hd : needed d = .error (.truncated 92) := by decide +kernel
  have hsize : d.size < UInt64.size := by decide
  obtain ⟨⟨-, hwords⟩, -, -, htrue, -⟩ := needed_truthful d
  refine ⟨hsize, ?_, htrue _ hd⟩
  rw [hwords hsize, hd]
  rfl

end Elf

end LayeredBundles
