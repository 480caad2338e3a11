/-! # Splitting text at a separator

Text is cut at every occurrence of one character, so `n` separators give `n + 1` pieces, some of
which may be empty.

* **`Text.split`** — the pieces between separators;
* **`Text.join`** — pieces put together again with a separator between neighbours;
* **`Text.afterLast`**, **`Text.beforeLast?`** — the text on either side of the last separator;
* **`Text.beforeFirst`** — the text before the first separator, all of it when there is none;
* **`Text.dropEnd?`** — what is left of a text in front of a given ending.

`join_split` and `split_join` make the first two inverse to each other, the latter on pieces that
hold no separator. -/

namespace LayeredBundles

namespace Text

/-! ## (1) Lists of characters -/

/-- Put `c` in front of the first piece. -/
def consFirst (c : Char) : List (List Char) → List (List Char)
  | [] => [[c]]
  | s :: ss => (c :: s) :: ss

/-- The pieces of a list of characters between occurrences of `sep`. -/
def splitChars (sep : Char) : List Char → List (List Char)
  | [] => [[]]
  | c :: cs => if c = sep then [] :: splitChars sep cs else consFirst c (splitChars sep cs)

/-- Pieces with `sep` between neighbours. -/
def joinChars (sep : Char) : List (List Char) → List Char
  | [] => []
  | [s] => s
  | s :: t :: rest => s ++ sep :: joinChars sep (t :: rest)

/-- No characters are one empty piece. -/
theorem splitChars_nil (sep : Char) : splitChars sep [] = [[]] := rfl

/-- A separator begins a new piece, and other characters go on with the first one. -/
theorem splitChars_cons (sep c : Char) (cs : List Char) :
    splitChars sep (c :: cs) = if c = sep then [] :: splitChars sep cs else consFirst c (splitChars sep cs) := rfl

/-- There is one piece at least. -/
theorem splitChars_ne_nil (sep : Char) (cs : List Char) : splitChars sep cs ≠ [] := by
  cases cs with
  | nil => simp [splitChars_nil]
  | cons c cs =>
    rw [splitChars_cons]
    split
    · simp
    · cases splitChars sep cs <;> simp [consFirst]

/-- A character in front of the first piece is in front of the whole. -/
theorem joinChars_consFirst (sep c : Char) {l : List (List Char)} (h : l ≠ []) :
    joinChars sep (consFirst c l) = c :: joinChars sep l := by
  match l with
  | [] => exact absurd rfl h
  | [s] => rfl
  | s :: t :: rest => rfl

/-- Pieces are joined again to what was split. -/
theorem joinChars_splitChars (sep : Char) (cs : List Char) :
    joinChars sep (splitChars sep cs) = cs := by
  induction cs with
  | nil => rfl
  | cons c cs ih =>
    rw [splitChars_cons]
    split
    · next h =>
      subst h
      match hs : splitChars c cs with
      | [] => exact absurd hs (splitChars_ne_nil c cs)
      | s :: ss => rw [hs] at ih; simp [joinChars, ih]
    · rw [joinChars_consFirst sep c (splitChars_ne_nil sep cs), ih]

/-- Text without separators is one piece. -/
theorem splitChars_of_not_mem {sep : Char} {s : List Char} (h : sep ∉ s) :
    splitChars sep s = [s] := by
  induction s with
  | nil => rfl
  | cons c s ih =>
    simp only [List.mem_cons, not_or] at h
    simp [splitChars_cons, Ne.symm h.1, ih h.2, consFirst]

/-- What stands in front of the first separator is the first piece. -/
theorem splitChars_append_sep {sep : Char} {s : List Char} (h : sep ∉ s) (rest : List Char) :
    splitChars sep (s ++ sep :: rest) = s :: splitChars sep rest := by
  induction s with
  | nil => simp [splitChars_cons]
  | cons c s ih =>
    simp only [List.mem_cons, not_or] at h
    simp [splitChars_cons, Ne.symm h.1, ih h.2, consFirst]

/-- Pieces without separators are split again as they were joined. -/
theorem splitChars_joinChars {sep : Char} {l : List (List Char)} (hne : l ≠ [])
    (h : ∀ s ∈ l, sep ∉ s) : splitChars sep (joinChars sep l) = l := by
  induction l with
  | nil => exact absurd rfl hne
  | cons s l ih =>
    cases l with
    | nil => simpa [joinChars] using splitChars_of_not_mem (h s (by simp))
    | cons t rest =>
      rw [joinChars, splitChars_append_sep (h s (by simp)),
        ih (by simp) (fun x hx => h x (List.mem_cons_of_mem _ hx))]

/-- No piece holds the separator. -/
theorem not_mem_of_mem_splitChars {sep : Char} {cs s : List Char} (h : s ∈ splitChars sep cs) :
    sep ∉ s := by
  induction cs generalizing s with
  | nil => simp [splitChars_nil] at h; simp [h]
  | cons c cs ih =>
    rw [splitChars_cons] at h
    split at h
    · rcases List.mem_cons.1 h with h | h
      · simp [h]
      · exact ih h
    · next hc =>
      match hs : splitChars sep cs with
      | [] => exact absurd hs (splitChars_ne_nil sep cs)
      | p :: ps =>
        rw [hs] at h
        simp only [consFirst, List.mem_cons] at h
        rcases h with h | h
        · subst h
          have := ih (s := p) (by simp [hs])
          simp [Ne.symm hc, this]
        · exact ih (by simp [hs, h])

/-! A list without `sep` is all in front of the first one, and so is what stands in front of it. -/

/-- With one, what stands in front of it is taken. -/
theorem takeWhile_append_sep {α : Type} [DecidableEq α] {sep : α} {front : List α} (h : sep ∉ front)
    (rest : List α) : (front ++ sep :: rest).takeWhile (· ≠ sep) = front := by
  have hkeep : ∀ c ∈ front, decide (c ≠ sep) = true := fun c hc => decide_eq_true fun heq => h (heq ▸ hc)
  rw [List.takeWhile_append_of_pos hkeep, List.takeWhile_cons_of_neg (by simp), List.append_nil]

/-! ## (2) Text -/

/-- The pieces of `s` between occurrences of `sep`. -/
def split (sep : Char) (s : String) : List String := (splitChars sep s.toList).map String.ofList

/-- Pieces with `sep` between neighbours. -/
def join (sep : Char) (pieces : List String) : String :=
  String.ofList (joinChars sep (pieces.map String.toList))

/-- A text is joined again from its pieces. -/
theorem join_split (sep : Char) (s : String) : join sep (split sep s) = s := by
  simp [join, split, List.map_map, Function.comp_def, joinChars_splitChars]

/-- Pieces without separators are split again from the text that they were joined to. -/
theorem split_join {sep : Char} {pieces : List String} (hne : pieces ≠ [])
    (h : ∀ s ∈ pieces, sep ∉ s.toList) : split sep (join sep pieces) = pieces := by
  rw [split, join, String.toList_ofList, splitChars_joinChars (by simpa using hne) (by simpa using h)]
  simp [List.map_map, Function.comp_def]

/-- A text has one piece at least. -/
theorem split_ne_nil (sep : Char) (s : String) : split sep s ≠ [] := by
  simp [split, splitChars_ne_nil]

/-- No piece has a separator. -/
theorem not_mem_of_mem_split {sep : Char} {s t : String} (h : t ∈ split sep s) :
    sep ∉ t.toList := by
  obtain ⟨cs, hcs, rfl⟩ := List.mem_map.1 h
  simpa using not_mem_of_mem_splitChars hcs

/-- The text after the last `sep`, all of it when there is none. -/
def afterLast (sep : Char) (s : String) : String := (split sep s).getLast?.getD s

/-- The text before the last `sep`, when there is one. -/
def beforeLast? (sep : Char) (s : String) : Option String :=
  match split sep s with
  | [] | [_] => none
  | pieces => some (join sep pieces.dropLast)

/-- The text before the first `sep`, all of it when there is none. -/
def beforeFirst (sep : Char) (s : String) : String := String.ofList (s.toList.takeWhile (· ≠ sep))

/-- What stands in front of `ending` in `s`, when `s` ends so. -/
def dropEnd? (ending s : String) : Option String :=
  if ending.toList.isSuffixOf s.toList then
    some (String.ofList (s.toList.take (s.toList.length - ending.toList.length)))
  else none

/-- What is left in front of an ending is the stem. -/
theorem dropEnd?_eq_some_iff {ending s stem : String} :
    dropEnd? ending s = some stem ↔ s = stem ++ ending := by
  unfold dropEnd?
  split
  · next h =>
    obtain ⟨t, ht⟩ := List.isSuffixOf_iff_suffix.1 h
    have hs : s = String.ofList t ++ ending := by
      apply String.toList_injective; simp [← ht]
    simp only [Option.some.injEq, ← ht, List.length_append]
    constructor
    · rintro rfl; rw [hs]; congr 1; simp
    · intro h'
      have : t = stem.toList := by
        have := congrArg String.toList h'
        rw [← ht] at this; simpa using this
      subst this; simp
  · next h =>
    simp only [reduceCtorEq, false_iff]
    rintro rfl
    exact h (List.isSuffixOf_iff_suffix.2 ⟨stem.toList, by simp⟩)

/-- The text without the characters at its end that satisfy `f`. -/
def dropEndWhile (f : Char → Bool) (s : String) : String :=
  String.ofList (s.toList.reverse.dropWhile f).reverse

/-- The text without the characters at its beginning that satisfy `f`. -/
def dropStartWhile (f : Char → Bool) (s : String) : String := String.ofList (s.toList.dropWhile f)

/-- Whether `s` begins with `start`. -/
def startsWith (start s : String) : Bool := start.toList.isPrefixOf s.toList

/-- Whether `s` ends with `ending`. -/
def endsWith (ending s : String) : Bool := ending.toList.isSuffixOf s.toList

/-- Whether `c` occurs in `s`. -/
def hasChar (c : Char) (s : String) : Bool := s.toList.contains c

end Text

end LayeredBundles
