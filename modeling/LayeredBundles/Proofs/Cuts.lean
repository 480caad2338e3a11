import LayeredBundles.Native.Elf
import LayeredBundles.Proofs.Bytes
import LayeredBundles.Text.Split

/-! # Binaries cut short

What is read of a file that was cut short, compared with what is read of the whole file. Every reading either says that
the file ends too early, or it has seen all the bytes it depends on and says the same of every longer file.

* **`ElfFault.Malformed`** — a file is wrong, rather than cut short or no ELF file at all;
* **`Elf.Foretells`** — a result that more bytes cannot change, unless it is that bytes are missing;
* **`Elf.View.more`** — the same view of a file with more bytes;
* **`Elf.foretells_needed`** — what is needed is foretold by each function of the reader in turn;
* **`Elf.needed_of_cut`** — no file gives another answer when it is cut, or when bytes follow it. -/

namespace LayeredBundles

/-- Whether a file is wrong, rather than cut short or no ELF file at all. -/
def ElfFault.Malformed : ElfFault → Prop
  | .notElf | .truncated _ => False
  | .unknownClass _ | .unknownOrder _ | .offsetOverflow _ _ | .indexOverflow _ | .noStringTable => True

/-- A file that is not wrong is no ELF file or is cut short. -/
theorem ElfFault.eq_of_not_malformed {f : ElfFault} (h : ¬ f.Malformed) : f = .notElf ∨ ∃ o, f = .truncated o := by
  cases f with
  | notElf => exact .inl rfl
  | truncated o => exact .inr ⟨o, rfl⟩
  | unknownClass | unknownOrder | offsetOverflow | indexOverflow | noStringTable => exact absurd trivial h

namespace Elf

variable {α β : Type} {a b c : Read α} {d e : ByteArray} {v : View} {width offset : Nat}

/-! ## (1) Results that more bytes cannot change -/

/-- `Foretells a b`: the second result is the first, unless the first is that the file is cut short or no ELF file. -/
def Foretells (a b : Read α) : Prop := a = b ∨ ∃ f, a = .error f ∧ ¬ f.Malformed

namespace Foretells

/-- A result foretells itself. -/
theorem refl (a : Read α) : Foretells a a := .inl rfl

/-- That bytes are missing foretells anything. -/
theorem truncated (o : Nat) (b : Read α) : Foretells (.error (.truncated o)) b := .inr ⟨.truncated o, rfl, id⟩

/-- That there is no ELF file foretells anything: the first bytes may be missing. -/
theorem notElf (b : Read α) : Foretells (.error .notElf) b := .inr ⟨.notElf, rfl, id⟩

/-- A result that was reached stays. -/
theorem of_ok {a b : Read α} {x : α} (h : Foretells a b) (hx : a = .ok x) : b = .ok x := by
  obtain rfl | ⟨f, hf, -⟩ := h
  · exact hx
  · rw [hx] at hf
    cases hf

/-- So does an error that the file is wrong. -/
theorem of_malformed {f : ElfFault} (h : Foretells a b) (hf : f.Malformed) (ha : a = .error f) : b = .error f := by
  obtain rfl | ⟨g, hg, hearly⟩ := h
  · exact ha
  · rw [ha, Except.error.injEq] at hg
    exact absurd (hg ▸ hf) hearly

/-- What the longer file gives, the shorter one gives, or it is too short to tell. -/
theorem ok_or {x : α} (h : Foretells a b) (hb : b = .ok x) :
    a = .ok x ∨ a = .error .notElf ∨ ∃ o, a = .error (.truncated o) := by
  obtain rfl | ⟨f, rfl, hearly⟩ := h
  · exact .inl hb
  · obtain rfl | ⟨o, rfl⟩ := ElfFault.eq_of_not_malformed hearly
    · exact .inr (.inl rfl)
    · exact .inr (.inr ⟨o, rfl⟩)

/-- What is done with a result is foretold when it is so for every result. -/
theorem bind {a' : Read β} {k k' : β → Read α} {a : Read β} (h : Foretells a a') (hk : ∀ x, Foretells (k x) (k' x)) :
    Foretells (a >>= k) (a' >>= k') := by
  obtain rfl | ⟨f, rfl, hearly⟩ := h
  · cases a with
    | ok x => exact hk x
    | error f => exact refl _
  · exact .inr ⟨f, rfl, hearly⟩

/-- The same, when the other file gives a result of its own kind. -/
theorem bind_map {γ : Type} {g : β → γ} {a : Read β} {a' : Read γ} {k : β → Read α} {k' : γ → Read α}
    (h : Foretells (a.map g) a') (hk : ∀ x, Foretells (k x) (k' (g x))) : Foretells (a >>= k) (a' >>= k') := by
  cases a with
  | error f =>
    obtain rfl | ⟨f', hf', hearly⟩ := h
    · exact refl _
    · rw [Except.map, Except.error.injEq] at hf'
      exact .inr ⟨f, rfl, hf' ▸ hearly⟩
  | ok x =>
    rw [h.of_ok rfl]
    exact hk x

/-- What does not look at the bytes is the same for both files. -/
theorem step {r : Read β} {k k' : β → Read α} (hk : ∀ x, Foretells (k x) (k' x)) : Foretells (r >>= k) (r >>= k') :=
  bind (refl r) hk

/-- A choice that does not depend on the missing bytes is foretold if both of its branches are. -/
theorem ite {p : Prop} [Decidable p] {a' b' : Read α} (h : Foretells a b) (h' : Foretells a' b') :
    Foretells (if p then a else a') (if p then b else b') := by
  split
  · exact h
  · exact h'

/-- Results one after the other are foretold if each of them is. -/
theorem mapM {γ : Type} {f g : γ → Read α} (h : ∀ x, Foretells (f x) (g x)) (xs : List γ) :
    Foretells (xs.mapM f) (xs.mapM g) := by
  induction xs with
  | nil => exact refl _
  | cons x xs ih =>
    rw [List.mapM_cons, List.mapM_cons]
    exact bind (h x) fun y => bind ih fun ys => refl _

end Foretells

/-! ## (2) Fields -/

/-- The same view of a file with more bytes. -/
def View.more (v : View) (e : ByteArray) : View := { v with data := v.data ++ e }

/-- A number is read alike when more bytes follow. -/
theorem foretells_number (v : View) (e : ByteArray) (width offset : Nat) :
    Foretells (v.number width offset) ((v.more e).number width offset) := by
  unfold View.number View.more
  dsimp only
  split
  · next n hn =>
    have hmore : (if v.bigEndian then Bytes.big? (v.data ++ e) offset width
        else Bytes.little? (v.data ++ e) offset width) = some n := by
      split at hn
      · next hbig => rw [if_pos hbig, Bytes.big?_append hn]
      · next hbig => rw [if_neg hbig, Bytes.little?_append hn]
    rw [hmore]
    exact .refl _
  · exact .truncated offset _

/-- A number is read, and then something is done with it. -/
theorem Foretells.read {k k' : Nat → Read α} (hk : ∀ n, Foretells (k n) (k' n)) :
    Foretells (v.number width offset >>= k) ((v.more e).number width offset >>= k') :=
  .bind (foretells_number v e width offset) hk

/-- Text is what stands before the next zero byte. -/
theorem text_eq_ok {s : String} : v.text offset = .ok s ↔
    offset ≤ v.data.size ∧ ∃ bs rest, v.data.toList.drop offset = bs ++ 0 :: rest ∧ 0 ∉ bs ∧
      s = Utf8.lossy (Bytes.ofList bs) := by
  unfold View.text
  rw [Bytes.toList_extract_size]
  generalize v.data.toList.drop offset = tail
  constructor
  · intro h
    split at h
    · next hle =>
      dsimp only at h
      split at h
      · next hzero =>
        obtain ⟨bs, rest, rfl, hbs⟩ := List.eq_append_cons_of_mem (List.contains_iff_mem.1 hzero)
        rw [Text.takeWhile_append_sep hbs] at h
        exact ⟨hle, bs, rest, rfl, hbs, (Except.ok.inj h).symm⟩
      · cases h
    · cases h
  · rintro ⟨hle, bs, rest, rfl, hbs, rfl⟩
    dsimp only
    rw [if_pos hle, Text.takeWhile_append_sep hbs, if_pos (List.contains_iff_mem.2 (by simp))]

/-- Text is there, or the file ends too early. -/
theorem text_error {f : ElfFault} (h : v.text offset = .error f) : f = .truncated offset := by
  unfold View.text at h
  split at h
  · dsimp only at h
    split at h
    · cases h
    · exact (Except.error.inj h).symm
  · exact (Except.error.inj h).symm

/-- So is a text, since it ends at the first zero byte. -/
theorem foretells_text (v : View) (e : ByteArray) (offset : Nat) :
    Foretells (v.text offset) ((v.more e).text offset) := by
  rcases htext : v.text offset with f | s
  · rw [text_error htext]
    exact .truncated offset _
  · obtain ⟨hle, bs, rest, hdrop, hbs, rfl⟩ := text_eq_ok.1 htext
    have hsize : (v.more e).data.size = v.data.size + e.size := ByteArray.size_append
    have hmore : (v.more e).data.toList.drop offset = bs ++ 0 :: (rest ++ e.toList) := by
      change (v.data ++ e).toList.drop offset = _
      rw [Bytes.toList_append, List.drop_append_of_le_length (by rwa [Bytes.length_toList]), hdrop, List.append_assoc,
        List.cons_append]
    rw [text_eq_ok.2 ⟨by omega, bs, rest ++ e.toList, hmore, hbs, rfl⟩]
    exact .refl _

/-! ## (3) Headers -/

/-- The class and the byte order are told by the first bytes. -/
theorem foretells_viewOf (d e : ByteArray) : Foretells ((viewOf d).map (·.more e)) (viewOf (d ++ e)) := by
  by_cases hsize : d.size < 16
  · have hshort : viewOf d = .error .notElf := by simp [viewOf, hsize]
    rw [hshort]
    exact .notElf _
  · have hmore : (d ++ e).size = d.size + e.size := ByteArray.size_append
    have hmagic : Bytes.hasAt (d ++ e) 0 magic = Bytes.hasAt d 0 magic :=
      Bytes.hasAt_append (show 0 + 4 ≤ d.size by omega) e
    unfold viewOf
    rw [hmagic, decide_eq_false hsize, decide_eq_false (show ¬ (d ++ e).size < 16 by omega),
      Bytes.byteAt_append (by omega), Bytes.byteAt_append (by omega)]
    split
    · exact .refl _
    · split <;> split <;> exact .refl _

/-- The header is read alike when more bytes follow. -/
theorem foretells_header (v : View) (e : ByteArray) : Foretells (header v) (header (v.more e)) := by
  refine .ite ?_ ?_
  all_goals
    exact .read fun segmentsAt => .read fun sectionsAt => .read fun segmentSize => .read fun segmentCount =>
      .read fun sectionSize => .read fun sectionCount => .refl _

/-- So is a segment of the program header table. -/
theorem foretells_segmentAt (v : View) (e : ByteArray) (base : Nat) :
    Foretells (segmentAt v base) (segmentAt (v.more e) base) := by
  refine .read fun kind => .ite ?_ ?_
  all_goals
    exact .step fun _ => .read fun offset => .step fun _ => .read fun address => .step fun _ => .read fun size =>
      .refl _

/-- So is the whole program header table. -/
theorem foretells_segments (v : View) (e : ByteArray) (h : Header) :
    Foretells (segments v h) (segments (v.more e) h) :=
  .mapM (fun _ => .step fun base => foretells_segmentAt v e base) _

/-! ## (4) The dynamic table -/

/-- A dynamic table is read row by row, so what was read of it stays. -/
theorem foretells_rowsFrom (v : View) (e : ByteArray) (rows offset : Nat) :
    Foretells (rowsFrom v rows offset) (rowsFrom (v.more e) rows offset) := by
  induction rows generalizing offset with
  | zero => exact .refl _
  | succ rows ih =>
    refine .read fun tag => .ite (.refl _) ?_
    exact .step fun _ => .read fun value => .step fun next => .bind (ih next) fun rest => .refl _

/-- The rows of a table of a given size are read alike when more bytes follow. -/
theorem foretells_tableRows (v : View) (e : ByteArray) (offset size : Nat) :
    Foretells (tableRows v offset size) (tableRows (v.more e) offset size) :=
  .step fun _ => foretells_rowsFrom v e _ offset

/-- The table that a dynamic segment tells of is read alike when more bytes follow. -/
theorem foretells_segmentTable (v : View) (e : ByteArray) (s : Segment) :
    Foretells (segmentTable v s) (segmentTable (v.more e) s) :=
  .bind (foretells_tableRows v e s.offset s.size) fun _ => .refl _

/-- So is the one that a dynamic section tells of. -/
theorem foretells_sectionTable (v : View) (e : ByteArray) (h : Header) (base : Nat) :
    Foretells (sectionTable v h base) (sectionTable (v.more e) h base) := by
  refine .ite ?_ ?_
  all_goals
    refine .step fun _ => .read fun offset => .step fun _ => .read fun size => .step fun _ => .read fun link => ?_
    refine .step fun linked => .step fun _ => .read fun strings => ?_
    exact .bind (foretells_tableRows v e offset size) fun rows => .refl _

/-- The search among the sections stops at the same one. -/
theorem foretells_findSection (v : View) (e : ByteArray) (h : Header) (count i : Nat) :
    Foretells (findSection v h count i) (findSection (v.more e) h count i) := by
  induction count generalizing i with
  | zero => exact .refl _
  | succ count ih =>
    refine .step fun base => .step fun _ => .read fun type => .ite ?_ (ih (i + 1))
    exact .bind (foretells_sectionTable v e h base) fun table => .refl _

/-- The table is looked for in the segments and then in the sections, with more bytes or without. -/
theorem foretells_findTable (v : View) (e : ByteArray) (h : Header) :
    Foretells (findTable v h) (findTable (v.more e) h) := by
  refine .bind (foretells_segments v e h) fun segs => ?_
  split
  · refine .bind (foretells_segmentTable v e _) fun table => ?_
    dsimp only
    split
    · exact .refl _
    · exact foretells_findSection v e h _ 0
  · exact foretells_findSection v e h _ 0

/-- The names that the rows point to are read alike when more bytes follow. -/
theorem foretells_names (v : View) (e : ByteArray) (strings : Nat) (entries : List (Nat × Nat)) :
    Foretells (names v strings entries) (names (v.more e) strings entries) :=
  .mapM (fun _ => .step fun offset => foretells_text v e offset) _

/-! ## (5) Whole files -/

/-- What is needed is the same with more bytes, unless the file is cut short or no ELF file. -/
theorem foretells_needed (d e : ByteArray) : Foretells (needed d) (needed (d ++ e)) := by
  refine .bind_map (foretells_viewOf d e) fun v => .bind (foretells_header v e) fun h => ?_
  refine .bind (foretells_findTable v e h) fun table => ?_
  split
  · exact .refl _
  · exact .bind (foretells_names v e _ _) fun ns => .refl _

/-- **Cut or padded files give no other answer.** A list of names and a complaint about a wrong file both stay when
bytes follow. So a beginning of a file that needs some libraries needs the same ones, or is cut short, or is no ELF
file. -/
theorem needed_of_cut (d e : ByteArray) :
    (∀ ns, needed d = .ok ns → needed (d ++ e) = .ok ns) ∧
      (∀ f : ElfFault, f.Malformed → needed d = .error f → needed (d ++ e) = .error f) ∧
      ∀ ns, needed (d ++ e) = .ok ns →
        needed d = .ok ns ∨ needed d = .error .notElf ∨ ∃ o, needed d = .error (.truncated o) := by
  have h := foretells_needed d e
  exact ⟨fun ns => h.of_ok, fun f hf => h.of_malformed hf, fun ns => h.ok_or⟩

/-- A binary with one section, a dynamic table that is its own string table. It needs the library `b`. -/
def singleSection : List UInt8 :=
  [0x7f, 0x45, 0x4c, 0x46, 1, 1] ++ List.replicate 26 0 ++ [52, 0, 0, 0] ++ List.replicate 10 0 ++
    [32, 0, 1, 0, 0, 0] ++ [0, 0, 0, 0, 6, 0, 0, 0] ++ List.replicate 8 0 ++ [84, 0, 0, 0, 16, 0, 0, 0] ++
    List.replicate 8 0 ++ [1, 0, 0, 0, 16, 0, 0, 0] ++ List.replicate 8 0 ++ [0x62, 0]

/-- Bytes behind the binary change nothing, nor do they when its byte order is unknown. Without its last byte it is cut
short. -/
theorem needed_singleSection :
    let d := Bytes.ofList singleSection
    let wrong := Bytes.ofList (singleSection.set 5 3)
    let cut := Bytes.ofList singleSection.dropLast
    let e := Bytes.ofList [0]
    (needed d = .ok ["b"] ∧ needed (d ++ e) = .ok ["b"]) ∧
      ((ElfFault.unknownOrder 3).Malformed ∧ needed wrong = .error (.unknownOrder 3) ∧
        needed (wrong ++ e) = .error (.unknownOrder 3)) ∧
      needed (cut ++ e) = .ok ["b"] ∧
        (needed cut = .ok ["b"] ∨ needed cut = .error .notElf ∨ ∃ o, needed cut = .error (.truncated o)) := by
  intro d wrong cut e
  have hd : needed d = .ok ["b"] := by decide +kernel
  have hwrong : needed wrong = .error (.unknownOrder 3) := by decide +kernel
  have hcut : needed (cut ++ e) = .ok ["b"] := by decide +kernel
  exact ⟨⟨hd, (needed_of_cut d e).1 _ hd⟩, ⟨trivial, hwrong, (needed_of_cut wrong e).2.1 _ trivial hwrong⟩, hcut,
    (needed_of_cut cut e).2.2 _ hcut⟩

end Elf

end LayeredBundles
