import LayeredBundles.Native.Words
import LayeredBundles.Proofs.Cuts

/-! # The reader on machine words and the reader

Function by function, the reader on machine words gives what the reader gives, with the same errors: sums and products
that are asked for their overflow are those that the reader refuses, and what is not asked for does not go wrong. A
file with more bytes than words can count is the exception; there the two may differ, yet no run goes wrong.

* **`Elf.Words.Mirrors`** — a run gives what the reader gives;
* **`Elf.Words.mirrors_collect`** — the loop over a dynamic table collects the rows that the reader counts;
* **`Elf.Words.mirrors_needed`** — what is needed, by each function in turn;
* **`Elf.Words.length_collect`** — the loop collects at most as many rows as the bytes hold. -/

namespace LayeredBundles

namespace Elf.Words

variable {α β γ δ : Type} {d : ByteArray} {v : View} {f : α → β} {g : γ → δ}

/-! ## (1) Runs that give what the reader gives -/

/-- `Mirrors d f a b`: the run gives what the reader gives, up to `f`, or the file is larger than words can count and
the run ends with an error of the reader. -/
def Mirrors (d : ByteArray) (f : α → β) (a : Run α) (b : Read β) : Prop :=
  a.map f = b.mapError .fault ∨ UInt64.size ≤ d.size ∧ ∃ e, a = .error (.fault e)

namespace Mirrors

/-- A result mirrors what it stands for. -/
theorem ok (d : ByteArray) (f : α → β) (x : α) : Mirrors d f (.ok x) (.ok (f x)) := .inl rfl

/-- An error of the reader is an error of the run. -/
theorem fault (d : ByteArray) (f : α → β) (e : ElfFault) : Mirrors d f (.error (.fault e)) (.error e) := .inl rfl

/-- What is done with a result gives the same when it does so for every result. -/
theorem bind {a : Run α} {b : Read β} {k : α → Run γ} {k' : β → Read δ} (h : Mirrors d f a b)
    (hk : ∀ x, a = .ok x → Mirrors d g (k x) (k' (f x))) : Mirrors d g (a >>= k) (b >>= k') := by
  rcases h with h | ⟨hlarge, e, rfl⟩
  · cases a with
    | ok x =>
      cases b with
      | ok y =>
        cases h
        exact hk x rfl
      | error e => cases h
    | error e =>
      cases b with
      | ok y => cases h
      | error e' =>
        cases h
        exact .inl rfl
  · exact .inr ⟨hlarge, e, rfl⟩

/-- A step that goes well on words alone. -/
theorem bind_ok {a : Run α} {x : α} {k : α → Run γ} {b : Read δ} (ha : a = .ok x) (h : Mirrors d g (k x) b) :
    Mirrors d g (a >>= k) b := by
  subst ha
  exact h

/-- A step that goes well in the reader alone. -/
theorem ok_bind {a : Run γ} {y : β} {k : β → Read δ} (h : Mirrors d g a (k y)) : Mirrors d g a (.ok y >>= k) := h

/-- Tests that agree choose runs that agree. -/
theorem ite {p p' : Prop} [Decidable p] [Decidable p'] {a a' : Run α} {b b' : Read β} (hp : p ↔ p')
    (h : p → Mirrors d f a b) (h' : ¬ p → Mirrors d f a' b') :
    Mirrors d f (if p then a else a') (if p' then b else b') := by
  by_cases hp' : p
  · rw [if_pos hp', if_pos (hp.1 hp')]
    exact h hp'
  · rw [if_neg hp', if_neg (mt hp.2 hp')]
    exact h' hp'

/-- A partial operation gives what the reader gives if it succeeds when that does. -/
theorem orFault {e : ElfFault} {o : Option α} {b : Read β} (hsome : ∀ x, o = some x → b = .ok (f x))
    (hnone : o = none → b = .error e) : Mirrors d f (orFault e o) b := by
  cases o with
  | some x =>
    rw [hsome x rfl]
    exact ok d f x
  | none =>
    rw [hnone rfl]
    exact fault d f e

/-- Runs one after the other give what the readings one after the other give. -/
theorem mapM {k : α → Run γ} {k' : β → Read δ} {xs : List α} (h : ∀ x ∈ xs, Mirrors d g (k x) (k' (f x))) :
    Mirrors d (List.map g) (xs.mapM k) ((xs.map f).mapM k') := by
  induction xs with
  | nil => exact ok d (List.map g) []
  | cons x xs ih =>
    rw [List.mapM_cons, List.map_cons, List.mapM_cons]
    refine bind (h x List.mem_cons_self) fun y _ => ?_
    exact bind (ih fun x' hx' => h x' (List.mem_cons_of_mem _ hx')) fun ys _ => ok d (List.map g) (y :: ys)

/-- No run goes wrong: an early end is an error of the reader. -/
theorem exists_fault {a : Run α} {b : Read β} (h : Mirrors d f a b) {e : Stop} (ha : a = .error e) :
    ∃ e', e = .fault e' := by
  rcases h with h | ⟨-, e', he'⟩
  · subst ha
    cases b with
    | ok y => cases h
    | error e' =>
      cases h
      exact ⟨e', rfl⟩
  · rw [ha] at he'
    cases he'
    exact ⟨e', rfl⟩

/-- What a run ends with, the reader gives. -/
theorem of_ok {a : Run α} {b : Read β} {x : α} (h : Mirrors d f a b) (hx : a = .ok x) : b = .ok (f x) := by
  subst hx
  rcases h with h | ⟨-, e, he⟩
  · cases b <;> cases h
    rfl
  · cases he

/-- In a file whose bytes are counted by words, a run is the reading itself. -/
theorem eq_mapError {a : Run α} {b : Read α} (h : Mirrors d id a b) (hd : d.size < UInt64.size) :
    a = b.mapError .fault := by
  rcases h with h | ⟨hlarge, -⟩
  · cases a <;> exact h
  · exact absurd hd (Nat.not_lt.2 hlarge)

end Mirrors

/-! ## (2) Fields -/

/-- A sum of words that does not overflow is the sum of the numbers. -/
theorem toNat_add {a b : UInt64} (h : a.toNat + b.toNat < UInt64.size) : (a + b).toNat = a.toNat + b.toNat :=
  Nat.mod_eq_of_lt h

/-- So is a product. -/
theorem toNat_mul {a b : UInt64} (h : a.toNat * b.toNat < UInt64.size) : (a * b).toNat = a.toNat * b.toNat :=
  Nat.mod_eq_of_lt h

/-- A checked sum is the sum of the numbers. -/
theorem sum?_eq_some {a b c : UInt64} (h : sum? a b = some c) :
    a.toNat + b.toNat < UInt64.size ∧ c.toNat = a.toNat + b.toNat := by
  unfold sum? at h
  split at h
  · next hsum =>
    cases h
    exact ⟨hsum, toNat_add hsum⟩
  · cases h

/-- There is no checked sum only if the numbers overflow. -/
theorem sum?_eq_none {a b : UInt64} (h : sum? a b = none) : ¬ a.toNat + b.toNat < UInt64.size := by
  unfold sum? at h
  split at h
  · cases h
  · assumption

/-- A difference that is not below zero is one of numbers. -/
theorem minus_of_le {a b : UInt64} (h : b ≤ a) : ∃ c, minus a b = .ok c ∧ c.toNat = a.toNat - b.toNat :=
  ⟨a - b, if_pos h, UInt64.toNat_sub_of_le a b h⟩

/-- Checked addition gives what the reader's addition gives, the overflow included. -/
theorem mirrors_add (d : ByteArray) (a b : UInt64) :
    Mirrors d UInt64.toNat (add a b) (Elf.add a.toNat b.toNat) := by
  refine .orFault (fun c hc => ?_) fun hnone => if_neg (sum?_eq_none hnone)
  obtain ⟨hlt, hsum⟩ := sum?_eq_some hc
  rw [hsum]
  exact if_pos hlt

/-- So does the offset of an element of a table. -/
theorem mirrors_elementAt (d : ByteArray) (base index stride : UInt64) :
    Mirrors d UInt64.toNat (elementAt base index stride) (Elf.elementAt base.toNat index.toNat stride.toNat) := by
  unfold elementAt Elf.elementAt product?
  by_cases hlt : index.toNat * stride.toNat < UInt64.size
  · rw [if_pos hlt, if_pos hlt, ← toNat_mul hlt]
    exact mirrors_add d base (index * stride)
  · rw [if_neg hlt, if_neg hlt]
    exact .fault d _ _

/-- The number of some bytes, the greatest first, is bounded by their count. -/
theorem bigOf_lt (bs : List UInt8) : Bytes.bigOf bs < 256 ^ bs.length := by
  rw [← List.reverse_reverse bs, Bytes.bigOf_reverse, List.length_reverse]
  exact Bytes.littleOf_lt _

/-- At most eight bytes are a word. -/
theorem toNat_numberOf (v : View) {s : ByteArray} (hsize : s.size ≤ 8) : (numberOf v s).toNat =
    if v.bigEndian then Bytes.bigOf s.toList else Bytes.littleOf s.toList := by
  have hle : 256 ^ s.toList.length ≤ UInt64.size := by
    rw [Bytes.length_toList]
    exact Nat.pow_le_pow_right (n := 256) (by decide) hsize
  have hbig := bigOf_lt s.toList
  have hlittle := Bytes.littleOf_lt s.toList
  rw [numberOf, UInt64.toNat_ofNat']
  refine Nat.mod_eq_of_lt (Nat.lt_of_lt_of_le ?_ hle)
  split
  · exact hbig
  · exact hlittle

/-- The number that the reader takes from a piece of the file. -/
theorem number_eq (v : View) (width offset : Nat) : v.number width offset =
    match Bytes.slice? v.data offset width with
    | some s => .ok (if v.bigEndian then Bytes.bigOf s.toList else Bytes.littleOf s.toList)
    | none => .error (.truncated offset) := by
  unfold View.number Bytes.big? Bytes.little?
  cases Bytes.slice? v.data offset width with
  | none => simp
  | some s => cases v.bigEndian <;> simp

/-- **A number of up to eight bytes** is read alike. -/
theorem mirrors_number {width : UInt64} (hwidth : width.toNat ≤ 8) (offset : UInt64) :
    Mirrors v.data UInt64.toNat (number v width offset) (v.number width.toNat offset.toNat) := by
  unfold number bytes
  rw [number_eq]
  rcases hsum : sum? offset width with _ | stop
  · by_cases hlarge : offset.toNat + width.toNat ≤ v.data.size
    · exact .inr ⟨Nat.le_trans (Nat.not_lt.1 (sum?_eq_none hsum)) hlarge, .truncated offset.toNat, rfl⟩
    · rw [Bytes.slice?_of_gt (Nat.not_le.1 hlarge)]
      exact .fault _ _ _
  · obtain ⟨-, hstop⟩ := sum?_eq_some hsum
    have hle : offset ≤ stop := UInt64.le_iff_toNat_le.2 (by omega)
    rw [Option.bind_some, piece?]
    by_cases hinside : offset.toNat + width.toNat ≤ v.data.size
    · rw [if_pos ⟨hle, by rwa [hstop]⟩, Bytes.slice?_of_le hinside, hstop]
      refine .inl ?_
      have hsize : (v.data.extract offset.toNat (offset.toNat + width.toNat)).size ≤ 8 := by
        rw [ByteArray.size_extract]
        omega
      simp only [orFault, Except.map, Except.mapError, toNat_numberOf v hsize]
    · rw [if_neg (by rw [hstop]; exact fun h => hinside h.2), Bytes.slice?_of_gt (Nat.not_le.1 hinside)]
      exact .fault _ _ _

/-- Words of the file are as wide in both readers. -/
theorem toNat_wordSize (v : View) : (wordSize v).toNat = v.wordSize := by
  unfold wordSize View.wordSize
  split <;> rfl

/-- A word of the file is read alike. -/
theorem mirrors_word (v : View) (offset : UInt64) :
    Mirrors v.data UInt64.toNat (word v offset) (v.word offset.toNat) := by
  unfold word View.word
  rw [← toNat_wordSize]
  refine mirrors_number ?_ offset
  unfold wordSize
  split <;> decide

/-- So is a text, up to its zero byte. -/
theorem mirrors_text (v : View) (offset : UInt64) : Mirrors v.data id (text v offset) (v.text offset.toNat) := by
  unfold text View.text
  by_cases hle : offset.toNat ≤ v.data.size
  · rw [if_pos hle, if_pos hle]
    refine .bind_ok rfl ?_
    dsimp only
    generalize v.data.extract offset.toNat v.data.size = tail
    by_cases hzero : tail.toList.contains 0 = true
    · obtain ⟨run, rest, hrun, hnot⟩ := List.eq_append_cons_of_mem (List.contains_iff_mem.1 hzero)
      -- The first zero byte ends the run, so the bytes up to it are those before it.
      have hfind : tail.toList.findIdx? (· = 0) = some run.length := by
        have hnone : run.findIdx? (· = (0 : UInt8)) = none :=
          List.findIdx?_eq_none_iff.2 fun b hb => decide_eq_false fun h => hnot (h ▸ hb)
        rw [hrun, List.findIdx?_append, hnone]
        simp [List.findIdx?_cons]
      have hfirst : firstOf tail run.length = .ok (Bytes.ofList (tail.toList.takeWhile (· ≠ 0))) := by
        have hsize : run.length ≤ tail.size := by
          rw [← Bytes.length_toList, hrun]
          simp
        rw [firstOf, if_pos hsize, Except.ok.injEq, ← Bytes.toList_inj, Bytes.toList_ofList, Bytes.toList_extract, hrun,
          Text.takeWhile_append_sep hnot]
        simp
      rw [if_pos hzero, hfind]
      exact .bind_ok rfl (.bind_ok hfirst (.ok _ id _))
    · have hfind : tail.toList.findIdx? (· = 0) = none :=
        List.findIdx?_eq_none_iff.2 fun b hb => decide_eq_false fun h => hzero (List.contains_iff_mem.2 (h ▸ hb))
      rw [if_neg hzero, hfind]
      exact .fault _ id _
  · rw [if_neg hle, if_neg hle]
    exact .fault _ id _

/-! ## (3) Headers -/

/-- The first four bytes of a file with sixteen are taken without a stop. -/
theorem firstOf_four {d : ByteArray} (hsize : ¬ d.size < 16) :
    ∃ s, firstOf d 4 = .ok s ∧ Bytes.same s magic = Bytes.hasAt d 0 magic := by
  have hle : 4 ≤ d.size := by omega
  refine ⟨d.extract 0 4, if_pos hle, ?_⟩
  rw [Bytes.hasAt, show magic.size = 4 from rfl, Bytes.slice?_of_le (by omega), Option.any_some, Bool.eq_iff_iff,
    Bytes.same_iff, Bytes.same_iff]
  exact eq_comm

/-- An index within the file does not go wrong. -/
theorem byteAt_of_lt {i : Nat} (h : i < d.size) : byteAt d i = .ok (Bytes.byteAt d i) := by
  rw [byteAt, dif_pos h, Bytes.byteAt, dif_pos h]

/-- The class and the byte order are found alike: no index into the first bytes goes wrong. -/
theorem mirrors_viewOf (d : ByteArray) : Mirrors d id (viewOf d) (Elf.viewOf d) := by
  unfold viewOf Elf.viewOf
  by_cases hsize : d.size < 16
  · rw [if_pos hsize, if_pos (by simp [hsize])]
    exact .fault _ id _
  rw [if_neg hsize]
  obtain ⟨s, hs, hmagic⟩ := firstOf_four hsize
  refine .bind_ok hs ?_
  dsimp only
  rw [hmagic]
  by_cases hstart : Bytes.hasAt d 0 magic = true
  · rw [if_neg (by simp [hstart]), if_neg (by simp [hsize, hstart])]
    refine .bind_ok (byteAt_of_lt (by omega)) ?_
    have horder := byteAt_of_lt (show 5 < d.size by omega)
    -- The class and the byte order are one or two, else the file is refused.
    generalize (Bytes.byteAt d 4).toNat = c
    rcases c with _ | _ | _ | c
    · exact .inl rfl
    · refine .bind_ok rfl (.bind_ok horder ?_)
      generalize (Bytes.byteAt d 5).toNat = o
      rcases o with _ | _ | _ | o <;> exact .inl rfl
    · refine .bind_ok rfl (.bind_ok horder ?_)
      generalize (Bytes.byteAt d 5).toNat = o
      rcases o with _ | _ | _ | o <;> exact .inl rfl
    · exact .inl rfl
  · rw [if_pos (by simp [hstart]), if_pos (by simp [hstart])]
    exact .fault _ id _

/-- The file header in numbers. -/
def Header.plain (h : Header) : Elf.Header :=
  ⟨h.segmentsAt.toNat, h.sectionsAt.toNat, h.segmentSize.toNat, h.segmentCount.toNat, h.sectionSize.toNat,
    h.sectionCount.toNat⟩

/-- A program header in numbers. -/
def Segment.plain (s : Segment) : Elf.Segment := ⟨s.kind.toNat, s.offset.toNat, s.address.toNat, s.size.toNat⟩

/-- A number is read, and then something is done with it. -/
theorem Mirrors.read {width offset : UInt64} {width' offset' : Nat} {k : UInt64 → Run γ} {k' : Nat → Read δ}
    (hwidth : width.toNat ≤ 8) (hsame : width.toNat = width' ∧ offset.toNat = offset')
    (hk : ∀ n, Mirrors v.data g (k n) (k' n.toNat)) :
    Mirrors v.data g (number v width offset >>= k) (v.number width' offset' >>= k') := by
  rw [← hsame.1, ← hsame.2]
  exact (mirrors_number hwidth offset).bind fun n _ => hk n

/-- A sum of offsets is taken, and then something is done with it. -/
theorem Mirrors.step {base delta : UInt64} {delta' : Nat} {k : UInt64 → Run γ} {k' : Nat → Read δ}
    (hsame : delta.toNat = delta') (hk : ∀ n, Mirrors d g (k n) (k' n.toNat)) :
    Mirrors d g (add base delta >>= k) (Elf.add base.toNat delta' >>= k') := by
  rw [← hsame]
  exact (mirrors_add d base delta).bind fun n _ => hk n

/-- The header is read alike, field by field. -/
theorem mirrors_header (v : View) : Mirrors v.data Header.plain (header v) (Elf.header v) := by
  refine .ite Iff.rfl (fun _ => ?_) fun _ => ?_
  all_goals
    exact .read (by decide) ⟨rfl, rfl⟩ fun segmentsAt => .read (by decide) ⟨rfl, rfl⟩ fun sectionsAt =>
      .read (by decide) ⟨rfl, rfl⟩ fun segmentSize => .read (by decide) ⟨rfl, rfl⟩ fun segmentCount =>
      .read (by decide) ⟨rfl, rfl⟩ fun sectionSize => .read (by decide) ⟨rfl, rfl⟩ fun sectionCount =>
      .ok v.data Header.plain ⟨_, _, _, _, _, _⟩

/-- So is a segment. -/
theorem mirrors_segmentAt (v : View) (base : UInt64) :
    Mirrors v.data Segment.plain (segmentAt v base) (Elf.segmentAt v base.toNat) := by
  refine .read (by decide) ⟨rfl, rfl⟩ fun kind => .ite Iff.rfl (fun _ => ?_) fun _ => ?_
  all_goals
    exact .step rfl fun _ => .read (by decide) ⟨rfl, rfl⟩ fun offset => .step rfl fun _ =>
      .read (by decide) ⟨rfl, rfl⟩ fun address => .step rfl fun _ => .read (by decide) ⟨rfl, rfl⟩ fun size =>
      .ok v.data Segment.plain ⟨_, _, _, _⟩

/-- A position among at most as many as words can count. -/
theorem toNat_ofNat {i : Nat} (h : i < UInt64.size) : (UInt64.ofNat i).toNat = i := by
  rw [UInt64.toNat_ofNat']
  exact Nat.mod_eq_of_lt h

/-- So is the table of the segments. -/
theorem mirrors_segments (v : View) (h : Header) :
    Mirrors v.data (List.map Segment.plain) (segments v h) (Elf.segments v h.plain) := by
  unfold segments Elf.segments
  rw [← List.map_id (List.range h.plain.segmentCount)]
  refine .mapM fun i hi => ?_
  have hlt : i < UInt64.size := Nat.lt_trans (List.mem_range.1 hi) h.segmentCount.toNat_lt
  have hrow := mirrors_elementAt v.data h.segmentsAt (.ofNat i) h.segmentSize
  rw [toNat_ofNat hlt] at hrow
  exact hrow.bind fun base _ => mirrors_segmentAt v base

/-- The difference in the test of a segment is taken only where it does not go below zero. -/
theorem holds_eq (s : Segment) (address : UInt64) : holds s address =
    .ok (s.plain.address ≤ address.toNat && decide (address.toNat - s.plain.address < s.plain.size)) := by
  unfold holds
  by_cases hle : s.address ≤ address
  · obtain ⟨inside, hinside, hnat⟩ := minus_of_le hle
    rw [if_pos hle, hinside]
    simp only [Segment.plain, ← hnat, UInt64.le_iff_toNat_le.1 hle, decide_true, Bool.true_and,
      ← UInt64.lt_iff_toNat_lt]
    rfl
  · rw [if_neg hle]
    simp only [Segment.plain, mt UInt64.le_iff_toNat_le.2 hle, decide_false, Bool.false_and]
    rfl

/-- **An address is found in the file without a difference below zero.** -/
theorem offsetOf?_eq (address : UInt64) (segs : List Segment) : ∃ found, offsetOf? address segs = .ok found ∧
    found.map UInt64.toNat = Elf.offsetOf? (segs.map Segment.plain) address.toNat := by
  induction segs with
  | nil => exact ⟨none, rfl, rfl⟩
  | cons s rest ih =>
    unfold Elf.offsetOf? at *
    rw [offsetOf?, List.map_cons]
    by_cases hkind : s.kind.toNat = loaded
    · have hloaded : s.plain.kind = loaded := hkind
      rw [if_pos hkind, List.filter_cons, if_pos (decide_eq_true hloaded), List.find?_cons, holds_eq]
      by_cases hholds :
          (s.plain.address ≤ address.toNat && decide (address.toNat - s.plain.address < s.plain.size)) = true
      · -- The segment holds the address, so the difference does not go below zero.
        have hle : s.address ≤ address := by
          simp only [Bool.and_eq_true, decide_eq_true_eq] at hholds
          exact UInt64.le_iff_toNat_le.2 hholds.1
        obtain ⟨inside, hinside, hnat⟩ := minus_of_le hle
        refine ⟨sum? s.offset inside, ?_, ?_⟩
        · simp only [hholds, bind, Except.bind, ↓reduceIte, hinside]
          rfl
        · rw [hholds]
          simp only [Option.bind_some, Segment.plain, ← hnat]
          unfold sum?
          split
          · next hsum => rw [Option.map_some, toNat_add hsum]
          · rfl
      · simp only [Bool.not_eq_true] at hholds
        rw [hholds]
        exact ih
    · have hloaded : ¬ s.plain.kind = loaded := hkind
      rw [if_neg hkind, List.filter_cons, if_neg (mt of_decide_eq_true hloaded)]
      exact ih

/-! ## (4) The dynamic table -/

/-- A row in numbers. -/
def plainRow (row : UInt64 × UInt64) : Nat × Nat := (row.1.toNat, row.2.toNat)

/-- What the loop has collected, if it ends well. -/
def collected (v : View) (stop pos : UInt64) (rows : List (UInt64 × UInt64)) : Run (List (UInt64 × UInt64)) := do
  (collect v stop pos rows).2
  return (collect v stop pos rows).1

/-- One pass of the loop. -/
theorem collected_eq (stop pos : UInt64) (rows : List (UInt64 × UInt64)) :
    collected v stop pos rows = row? v stop pos >>= fun
      | none => pure rows
      | some row => add pos (rowSize v) >>= fun next => collected v stop next (rows ++ [row]) := by
  unfold collected
  rw [collect]
  split
  · next e hrow => rw [hrow]; rfl
  · next hrow => rw [hrow]; rfl
  · next row hrow =>
    rw [hrow]
    split
    · next e hnext => simp only [hnext]; rfl
    · next next' hnext => simp only [hnext]; rfl

/-- Rows that were collected are the reader's rows, with none to follow. -/
theorem mirrors_rows (d : ByteArray) (rows : List (UInt64 × UInt64)) :
    Mirrors d (List.map plainRow) (.ok rows) (.ok (rows.map plainRow ++ [])) := by
  rw [List.append_nil]
  exact .ok d (List.map plainRow) rows

/-- A row is two words wide in both readers. -/
theorem toNat_rowSize (v : View) : (rowSize v).toNat = 2 * v.wordSize := by rw [rowSize_eq, toNat_wordSize]

/-- A word has a byte at least. -/
theorem wordSize_pos (v : View) : 0 < v.wordSize := by
  unfold View.wordSize
  split <;> decide

/-- **The loop collects the rows that the reader counts**: as long as the next row ends inside the table. The induction
is on what is left of the bytes behind the row at hand. -/
theorem mirrors_collect (stop pos : UInt64) (rows : List (UInt64 × UInt64)) (hle : pos ≤ stop) :
    Mirrors v.data (List.map plainRow) (collected v stop pos rows) (do
      let rest ← rowsFrom v ((stop.toNat - pos.toNat) / (2 * v.wordSize)) pos.toNat
      return rows.map plainRow ++ rest) := by
  induction hleft : v.data.size - pos.toNat using Nat.strongRecOn generalizing pos rows with
  | ind left ih =>
    have hnat : pos.toNat ≤ stop.toNat := UInt64.le_iff_toNat_le.1 hle
    have hsize : 0 < 2 * v.wordSize := Nat.mul_pos (by decide) (wordSize_pos v)
    rw [collected_eq, row?, bind_assoc]
    rcases hnext : sum? pos (rowSize v) with _ | next
    · -- The row ends behind the last word, and all the more behind the table.
      have hover := sum?_eq_none hnext
      rw [toNat_rowSize] at hover
      have hlast : stop.toNat < UInt64.size := stop.toNat_lt
      rw [Nat.div_eq_of_lt (by omega), rowsFrom, Elf.add, if_neg hover, add, hnext, toNat_rowSize]
      exact .fault _ _ _
    obtain ⟨hfits, hend⟩ := sum?_eq_some hnext
    rw [toNat_rowSize] at hfits hend
    have hadd : add pos (rowSize v) = .ok next := by rw [add, hnext]; rfl
    refine .bind_ok hadd ?_
    by_cases hover : stop < next
    · -- The row ends behind the table.
      have hover' := UInt64.lt_iff_toNat_lt.1 hover
      rw [if_pos hover, Nat.div_eq_of_lt (by omega), rowsFrom, Elf.add, if_pos hfits]
      exact mirrors_rows v.data rows
    -- The row ends inside the table, so it is one of those that are counted.
    have hinside : next ≤ stop := UInt64.not_lt.1 hover
    have hinside' := UInt64.le_iff_toNat_le.1 hinside
    have hcount : (stop.toNat - pos.toNat) / (2 * v.wordSize) = (stop.toNat - next.toNat) / (2 * v.wordSize) + 1 := by
      rw [← Nat.add_div_right _ hsize]
      congr 1
      omega
    rw [if_neg hover, hcount, rowsFrom, bind_assoc, bind_assoc]
    refine (mirrors_word v pos).bind fun tag htag => ?_
    have hzero : tag = 0 ↔ tag.toNat = 0 := by rw [← UInt64.toNat_inj]; rfl
    by_cases htag0 : tag = 0
    · rw [if_pos htag0, if_pos (hzero.1 htag0)]
      exact mirrors_rows v.data rows
    rw [if_neg htag0, if_neg (mt hzero.2 htag0), ← toNat_wordSize, bind_assoc, bind_assoc]
    refine (mirrors_add _ pos (wordSize v)).bind fun at' hat => ?_
    rw [bind_assoc, bind_assoc]
    refine (mirrors_word v at').bind fun value hvalue => ?_
    rw [pure_bind, bind_assoc]
    refine .bind_ok hadd ?_
    -- A row that was read lies inside the bytes, so there is less left behind it.
    have hread := end_le_of_number hvalue
    rw [add_eq_ok hat, toNat_wordSize] at hread
    have hstep := ih (v.data.size - next.toNat) (by omega) next (rows ++ [(tag, value)]) hinside rfl
    rw [toNat_wordSize, Elf.add, if_pos hfits, ← hend]
    refine .ok_bind ?_
    rw [bind_assoc]
    simpa [plainRow] using hstep

/-- **The loop collects no more rows than the bytes behind `pos` hold**, however it ends: each row was read, and the
next one stands right behind it. -/
theorem length_collect (stop pos : UInt64) (rows : List (UInt64 × UInt64)) :
    (collect v stop pos rows).1.length * (rowSize v).toNat ≤
      rows.length * (rowSize v).toNat + (v.data.size - pos.toNat) := by
  fun_induction collect v stop pos rows with
  | case1 pos rows e hrow => exact Nat.le_add_right _ _
  | case2 pos rows hrow => exact Nat.le_add_right _ _
  | case3 pos rows row hrow e hnext =>
    have hend := end_le_of_row? hrow
    rw [List.length_append, List.length_singleton, Nat.succ_mul]
    omega
  | case4 pos rows row hrow next hnext ih =>
    have hend := end_le_of_row? hrow
    rw [List.length_append, List.length_singleton, Nat.succ_mul, add_eq_ok hnext] at ih
    omega

/-- **A table is read alike**, its bound on the rows included. -/
theorem mirrors_tableRows (v : View) (offset size : UInt64) :
    Mirrors v.data (List.map plainRow) (tableRows v offset size) (Elf.tableRows v offset.toNat size.toNat) := by
  refine (mirrors_add v.data offset size).bind fun stop hstop => ?_
  have hend := add_eq_ok hstop
  have hloop := mirrors_collect (v := v) stop offset [] (UInt64.le_iff_toNat_le.2 (by omega))
  simp only [hend, Nat.add_sub_cancel_left, List.map_nil, List.nil_append, bind_pure] at hloop
  exact hloop

/-- The first row with a tag is found alike. -/
theorem find?_plainRow (rows : List (UInt64 × UInt64)) (tag : Nat) :
    (rows.map plainRow).find? (·.1 = tag) = (rows.find? (·.1.toNat = tag)).map plainRow := by
  rw [List.find?_map]
  rfl

/-- A table in numbers, with the offset or the address of its strings. -/
def plainTable (table : List (UInt64 × UInt64) × UInt64) : List (Nat × Nat) × Nat :=
  (table.1.map plainRow, table.2.toNat)

/-- The table of a dynamic segment is found alike. -/
theorem mirrors_segmentTable (v : View) (s : Segment) :
    Mirrors v.data plainTable (segmentTable v s) (Elf.segmentTable v s.plain) := by
  refine (mirrors_tableRows v s.offset s.size).bind fun rows _ => ?_
  rw [find?_plainRow]
  cases rows.find? (·.1.toNat = stringTableTag) with
  | some row => exact .ok v.data plainTable (rows, row.2)
  | none => exact .fault _ _ _

/-- So is the table of a dynamic section. -/
theorem mirrors_sectionTable (v : View) (h : Header) (base : UInt64) :
    Mirrors v.data plainTable (sectionTable v h base) (Elf.sectionTable v h.plain base.toNat) := by
  refine .ite Iff.rfl (fun _ => ?_) fun _ => ?_
  all_goals
    refine .step rfl fun _ => .read (by decide) ⟨rfl, rfl⟩ fun offset => .step rfl fun _ =>
      .read (by decide) ⟨rfl, rfl⟩ fun size => .step rfl fun _ => .read (by decide) ⟨rfl, rfl⟩ fun link => ?_
    refine (mirrors_elementAt _ h.sectionsAt link h.sectionSize).bind fun linked _ => .step rfl fun _ =>
      .read (by decide) ⟨rfl, rfl⟩ fun strings => ?_
    exact (mirrors_tableRows v offset size).bind fun rows _ => .ok v.data plainTable (rows, strings)

/-- The sections are looked through alike, as many as a word can count. -/
theorem mirrors_findSection (v : View) (h : Header) {count i : Nat} (hcount : i + count ≤ UInt64.size) :
    Mirrors v.data (Option.map plainTable) (findSection v h count i) (Elf.findSection v h.plain count i) := by
  induction count generalizing i with
  | zero => exact .ok v.data (Option.map plainTable) none
  | succ count ih =>
    have hbase := mirrors_elementAt v.data h.sectionsAt (.ofNat i) h.sectionSize
    rw [toNat_ofNat (by omega)] at hbase
    refine hbase.bind fun base _ => .step rfl fun _ => .read (by decide) ⟨rfl, rfl⟩ fun type =>
      .ite Iff.rfl (fun _ => ?_) fun _ => ih (by omega)
    exact (mirrors_sectionTable v h base).bind fun table _ => .ok v.data (Option.map plainTable) (some table)

/-- The table is looked for in the segments and then in the sections by both. -/
theorem mirrors_findTable (v : View) (h : Header) :
    Mirrors v.data (Option.map plainTable) (findTable v h) (Elf.findTable v h.plain) := by
  have hsections : Mirrors v.data (Option.map plainTable) (findSection v h h.sectionCount.toNat 0)
      (Elf.findSection v h.plain h.plain.sectionCount 0) :=
    mirrors_findSection v h (by
      have : h.sectionCount.toNat < UInt64.size := h.sectionCount.toNat_lt
      omega)
  refine (mirrors_segments v h).bind fun segs _ => ?_
  have hfind : (segs.map Segment.plain).find? (·.kind = dynamic) =
      (segs.find? (·.kind.toNat = dynamic)).map Segment.plain := by
    rw [List.find?_map]
    rfl
  rw [hfind]
  cases segs.find? (·.kind.toNat = dynamic) with
  | none => exact hsections
  | some s =>
    refine (mirrors_segmentTable v s).bind fun table _ => ?_
    obtain ⟨rows, address⟩ := table
    obtain ⟨found, hfound, hplain⟩ := offsetOf?_eq address segs
    refine .bind_ok hfound ?_
    dsimp only [plainTable]
    rw [← hplain]
    cases found with
    | some strings => exact .ok v.data (Option.map plainTable) (some (rows, strings))
    | none => exact hsections

/-- The names are read alike, and checked for overflow at the same places. -/
theorem mirrors_names (v : View) (strings : UInt64) (rows : List (UInt64 × UInt64)) :
    Mirrors v.data id (names v strings rows) (Elf.names v strings.toNat (rows.map plainRow)) := by
  unfold names Elf.names
  have hfilter : (rows.map plainRow).filter (·.1 = neededTag) =
      (rows.filter (·.1.toNat = neededTag)).map plainRow := by
    rw [List.filter_map]
    rfl
  rw [hfilter, ← List.map_id_fun]
  exact .mapM fun row _ => .step rfl fun offset => mirrors_text v offset

/-! ## (5) Whole files -/

/-- A view is a view of the bytes it was made from. -/
theorem viewOf_data {d : ByteArray} (h : Elf.viewOf d = .ok v) : v.data = d := by
  unfold Elf.viewOf at h
  split at h
  · cases h
  · split at h <;> try cases h
    all_goals
      simp only [bind, Except.bind] at h
      split at h <;> cases h <;> rfl

/-- **What is needed on machine words is what is needed.** -/
theorem mirrors_needed (d : ByteArray) : Mirrors d id (needed d) (Elf.needed d) := by
  refine (mirrors_viewOf d).bind fun v hv => ?_
  obtain rfl : v.data = d := viewOf_data ((mirrors_viewOf d).of_ok hv)
  refine (mirrors_header v).bind fun h _ => (mirrors_findTable v h).bind fun table _ => ?_
  cases table with
  | none => exact .ok v.data id []
  | some table => exact (mirrors_names v table.2 table.1).bind fun ns _ => .ok v.data id (distinct ns)

end Elf.Words

end LayeredBundles
