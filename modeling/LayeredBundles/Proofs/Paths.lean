import LayeredBundles.Extraction
import LayeredBundles.Proofs.Charsets
import Mathlib.Data.List.DropRight

/-! # The steps of a path

Only the segments of a path that count lead anywhere. Here the text of joined paths, of the path in
front and of names beside a path is reduced to those **steps**.

* **`DiskPath.steps`** — the segments that count;
* **`DiskPath.steps_join`** — a joined path takes the steps of its parts one after another;
* **`DiskPath.exists_parent`** — the path in front takes all steps but the last one;
* **`Lock.exists_of_path`**, **`DiskPath.steps_beside`** — lock files and temporary files stand beside what
  they are for. -/

namespace LayeredBundles

namespace Text

/-! ## (1) Splitting text at a known place -/

/-- A separator between two texts splits them apart. -/
theorem splitChars_append (sep : Char) (s rest : List Char) :
    splitChars sep (s ++ sep :: rest) = splitChars sep s ++ splitChars sep rest := by
  induction s with
  | nil => simp [splitChars_nil, splitChars_cons]
  | cons c s ih =>
    by_cases hc : c = sep
    · simp [splitChars_cons, hc, ih]
    · simp only [List.cons_append, splitChars_cons, hc, ↓reduceIte, ih]
      rcases hs : splitChars sep s with _ | ⟨p, ps⟩
      · exact absurd hs (splitChars_ne_nil sep s)
      · rfl

/-- So does a slash between two paths. -/
theorem split_append_slash (a b : String) : split '/' (a ++ "/" ++ b) = split '/' a ++ split '/' b := by
  simp [split, splitChars_append]

/-- Text without the separator is one piece. -/
theorem split_of_not_mem {sep : Char} {s : String} (h : sep ∉ s.toList) : split sep s = [s] := by
  simp [split, splitChars_of_not_mem h]

/-- A text starts with another if some rest follows that. -/
theorem startsWith_iff {start s : String} : startsWith start s = true ↔ ∃ rest, s = start ++ rest := by
  constructor
  · intro h
    obtain ⟨t, ht⟩ := List.isPrefixOf_iff_prefix.1 h
    exact ⟨String.ofList t, String.toList_injective (by simp [ht])⟩
  · rintro ⟨rest, rfl⟩
    exact List.isPrefixOf_iff_prefix.2 ⟨rest.toList, by simp⟩

/-- A text ends with another if something stands in front of that. -/
theorem endsWith_iff {ending s : String} : endsWith ending s = true ↔ ∃ rest, s = rest ++ ending := by
  constructor
  · intro h
    obtain ⟨t, ht⟩ := List.isSuffixOf_iff_suffix.1 h
    exact ⟨String.ofList t, String.toList_injective (by simp [ht])⟩
  · rintro ⟨rest, rfl⟩
    exact List.isSuffixOf_iff_suffix.2 ⟨rest.toList, by simp⟩

/-- Text that ends so has its last piece empty. -/
theorem split_of_endsWith {s : String} (h : endsWith "/" s = true) :
    ∃ front, s = front ++ "/" ∧ split '/' s = split '/' front ++ [""] := by
  obtain ⟨front, rfl⟩ := endsWith_iff.1 h
  refine ⟨front, rfl, ?_⟩
  have := split_append_slash front ""
  simpa [split, splitChars] using this

/-- An empty piece at the end puts a separator there. -/
theorem joinChars_concat_nil (sep : Char) {pieces : List (List Char)} (h : pieces ≠ []) :
    joinChars sep (pieces ++ [[]]) = joinChars sep pieces ++ [sep] := by
  induction pieces with
  | nil => exact absurd rfl h
  | cons s rest ih =>
    cases rest with
    | nil => rfl
    | cons t rest =>
      have hrest := congrArg (s ++ sep :: ·) (ih (by simp))
      simpa [joinChars] using hrest

/-- Text whose last piece is empty ends so. -/
theorem endsWith_of_split {s : String} {pieces : List String} (h : split '/' s = pieces ++ [""])
    (hne : pieces ≠ []) : endsWith "/" s = true := by
  refine endsWith_iff.2 ⟨join '/' pieces, ?_⟩
  rw [← join_split '/' s, h, join, join]
  have hmap : pieces.map String.toList ≠ [] := by simpa using hne
  apply String.toList_injective
  simp [joinChars_concat_nil '/' hmap]

end Text

namespace DiskPath

/-! ## (2) Steps -/

/-- The segments of a path that count. -/
def steps (path : String) : List String := (segments path).filter counts

/-- Steps of a path on disk are cut as segments of a path in a bundle are. -/
theorem steps_eq_archive (path : String) : steps path = ArchivePath.segments path := rfl

/-- The empty path has no steps. -/
@[simp] theorem steps_empty : steps "" = [] := by decide

/-- Paths with a slash between them take their steps one after the other. -/
theorem steps_append_slash (a b : String) : steps (a ++ "/" ++ b) = steps a ++ steps b := by
  simp [steps, segments, Text.split_append_slash]

/-- Whether a path is absolute is told by its front. -/
theorem isAbsolute_append {a : String} (ha : a ≠ "") (b : String) : isAbsolute (a ++ b) = isAbsolute a := by
  have hne : a.toList ≠ [] := by simpa using ha
  obtain ⟨c, cs, hc⟩ := List.exists_cons_of_ne_nil hne
  simp [isAbsolute, Text.startsWith, hc, List.isPrefixOf]

/-- A path begins at the root when a slash follows its first segment, which is empty. -/
theorem isAbsolute_iff {path : String} :
    isAbsolute path = true ↔ ∃ s rest, segments path = "" :: s :: rest := by
  constructor
  · intro h
    obtain ⟨rest, rfl⟩ := Text.startsWith_iff.1 h
    obtain ⟨s, ss, hs⟩ := List.exists_cons_of_ne_nil (Text.split_ne_nil '/' rest)
    have := Text.split_append_slash "" rest
    refine ⟨s, ss, ?_⟩
    rw [hs] at this
    simpa [segments, Text.split, Text.splitChars] using this
  · rintro ⟨s, rest, h⟩
    have hpath := Text.join_split '/' path
    rw [← segments, h] at hpath
    rw [← hpath]
    simp [isAbsolute, Text.startsWith, Text.join, Text.joinChars, List.isPrefixOf]

/-- A path joined to another one takes the steps of both. -/
theorem steps_join {path : String} (h : isAbsolute path = false) (base : String) :
    steps (join base path) = steps base ++ steps path := by
  simp only [join, h, Bool.false_eq_true, ↓reduceIte]
  by_cases hb : base = ""
  · simp [hb]
  by_cases hs : Text.endsWith "/" base = true
  · obtain ⟨front, rfl, hsplit⟩ := Text.split_of_endsWith hs
    have hempty : counts "" = false := by decide
    have hfront : steps (front ++ "/") = steps front := by
      simp [steps, segments, hsplit, List.filter_append, hempty]
    simp only [hs, Bool.or_true, ↓reduceIte, hfront]
    exact steps_append_slash front path
  · simp only [hb, hs, decide_false, Bool.or_self, Bool.false_eq_true, ↓reduceIte]
    exact steps_append_slash base path

/-- A joined path ends with the segments of its second part. -/
theorem segments_join {path : String} (h : isAbsolute path = false) (base : String) :
    ∃ front, segments (join base path) = front ++ segments path := by
  simp only [join, h, Bool.false_eq_true, ↓reduceIte]
  by_cases hb : base = ""
  · exact ⟨[], by simp [hb]⟩
  by_cases hs : Text.endsWith "/" base = true
  · obtain ⟨front, rfl, -⟩ := Text.split_of_endsWith hs
    simp only [hs, Bool.or_true, ↓reduceIte]
    exact ⟨segments front, Text.split_append_slash front path⟩
  · simp only [hb, hs, decide_false, Bool.or_self, Bool.false_eq_true, ↓reduceIte]
    exact ⟨segments base, Text.split_append_slash base path⟩

/-- What is joined to a base is absolute if that is. -/
theorem isAbsolute_join {path : String} (h : isAbsolute path = false) (base : String) :
    isAbsolute (join base path) = isAbsolute base := by
  simp only [join, h, Bool.false_eq_true, ↓reduceIte]
  by_cases hb : base = ""
  · subst hb; simpa [isAbsolute, Text.startsWith] using h
  · split
    · exact isAbsolute_append hb path
    · rw [String.append_assoc, isAbsolute_append hb]

/-! ## (3) The path in front -/

/-- Steps that do not count are dropped from the end. -/
theorem trimEnd_eq (segs : List String) : trimEnd segs = segs.rdropWhile (!counts ·) := rfl

/-- That drops no step that counts. -/
theorem filter_trimEnd (segs : List String) : (trimEnd segs).filter counts = segs.filter counts := by
  have hnone : (segs.rtakeWhile (!counts ·)).filter counts = [] := by
    rw [List.filter_eq_nil_iff]
    intro s hs
    simpa using List.mem_rtakeWhile_imp hs
  have h := congrArg (List.filter counts) (List.rdropWhile_append_rtakeWhile (p := (!counts ·)) (l := segs))
  rw [List.filter_append, hnone, List.append_nil] at h
  exact h

/-- What is left in front of the last segment that counts. -/
theorem trimEnd_of_steps {segs xs : List String} {name : String} (h : segs.filter counts = xs ++ [name]) :
    ∃ front, trimEnd segs = front ++ [name] ∧ front.filter counts = xs := by
  have hf : (trimEnd segs).filter counts = xs ++ [name] := by rw [filter_trimEnd, h]
  rcases List.eq_nil_or_concat (trimEnd segs) with hnil | ⟨front, s, hs⟩
  · simp [hnil] at hf
  · rw [List.concat_eq_append] at hs
    have hcounts : counts s = true := by
      have hne : segs.rdropWhile (!counts ·) ≠ [] := by rw [← trimEnd_eq, hs]; simp
      have := List.rdropWhile_last_not (!counts ·) segs hne
      simpa [← trimEnd_eq, hs] using this
    rw [hs, List.filter_append, List.filter_cons_of_pos hcounts, List.filter_nil] at hf
    obtain ⟨hfront, hname⟩ := List.append_inj' hf rfl
    simp only [List.cons.injEq, and_true] at hname
    exact ⟨front, hname ▸ hs, hfront⟩

/-- What a path begins with holds no step. -/
theorem filter_lead (path : String) : (lead path).2.filter counts = steps path := by
  have hempty : counts "" = false := by decide
  have hhere : counts "." = false := by decide
  unfold lead steps
  split
  · next h =>
    obtain ⟨s, rest, hs⟩ := isAbsolute_iff.1 h
    simp [hs, hempty]
  · split
    · next h =>
      obtain ⟨rest, hs⟩ := List.head?_eq_some_iff.1 h
      simp [hs, hhere]
    · rfl

/-- **The path in front.** A path with a step has a path in front of it, which takes all steps but the last
one and begins where the path begins. -/
theorem exists_parent {path name : String} {xs : List String} (h : steps path = xs ++ [name]) :
    ∃ front, parent? path = some front ∧ steps front = xs ∧ isAbsolute front = isAbsolute path := by
  obtain ⟨before, htrim, hbefore⟩ := trimEnd_of_steps ((filter_lead path).trans h)
  have hfront : (trimEnd before).filter counts = xs := by rw [filter_trimEnd, hbefore]
  -- What stands in front of the last step is a part of the segments, so it can be joined and split again.
  have hpre : trimEnd before <+: (lead path).2 :=
    (List.rdropWhile_prefix _ _).trans
      (List.IsPrefix.trans ⟨[name], htrim.symm⟩ (List.rdropWhile_prefix _ _))
  have hlead : (lead path).2 <:+ segments path := by
    unfold lead
    split
    · exact List.drop_suffix _ _
    · split
      · exact List.drop_suffix _ _
      · exact List.suffix_refl _
  have hsegs : trimEnd before ≠ [] → segments (Text.join '/' (trimEnd before)) = trimEnd before :=
    fun hne => Text.split_join hne fun _ hs =>
      Text.not_mem_of_mem_split (hlead.subset (hpre.subset hs))
  have hparent : parent? path =
      if (lead path).1 = "." && !(trimEnd before).isEmpty then
        some ("./" ++ Text.join '/' (trimEnd before))
      else some ((lead path).1 ++ Text.join '/' (trimEnd before)) := by
    unfold parent?
    simp only [htrim, List.reverse_append, List.reverse_cons, List.reverse_nil, List.nil_append,
      List.cons_append, List.reverse_reverse]
  have hjoin : steps (Text.join '/' (trimEnd before)) = xs := by
    by_cases hne : trimEnd before = []
    · rw [hne] at hfront ⊢
      simpa [Text.join, Text.joinChars] using hfront
    · rw [steps, hsegs hne, hfront]
  -- By the beginning of the path: a slash, a point, or its first step.
  by_cases habs : isAbsolute path = true
  · have hstart : (lead path).1 = "/" := by simp [lead, habs]
    refine ⟨"/" ++ Text.join '/' (trimEnd before), by simp [hparent, hstart], ?_, ?_⟩
    · have := steps_append_slash "" (Text.join '/' (trimEnd before))
      simpa [hjoin] using this
    · rw [isAbsolute_append (by decide), habs]; decide
  by_cases hdot : (segments path).head? = some "."
  · have hstart : (lead path).1 = "." := by simp [lead, habs, hdot]
    have hsteps := steps_append_slash "." (Text.join '/' (trimEnd before))
    have hnone : steps "." = [] := by decide
    rw [hnone, hjoin, List.nil_append] at hsteps
    by_cases hne : trimEnd before = []
    · refine ⟨".", by simp [hparent, hstart, hne, Text.join, Text.joinChars], ?_, ?_⟩
      · rw [hne] at hfront; simpa [hnone] using hfront
      · simp only [habs]; decide
    · refine ⟨"./" ++ Text.join '/' (trimEnd before), by simp [hparent, hstart, hne], hsteps, ?_⟩
      rw [isAbsolute_append (by decide)]; simp only [habs]; decide
  · have hlead' : lead path = ("", segments path) := by simp [lead, habs, hdot]
    refine ⟨Text.join '/' (trimEnd before), by simp [hparent, hlead'], hjoin, ?_⟩
    rw [Bool.eq_false_iff.2 habs, ← Bool.not_eq_true, isAbsolute_iff]
    rintro ⟨s, rest, hs⟩
    by_cases hne : trimEnd before = []
    · rw [hne] at hs; simp [Text.join, Text.joinChars, segments, Text.split, Text.splitChars] at hs
    · rw [hsegs hne] at hs
      rw [hs, hlead'] at hpre
      obtain ⟨more, hmore⟩ := hpre
      exact habs (isAbsolute_iff.2 ⟨s, rest ++ more, by simpa using hmore.symm⟩)

/-! ## (4) Names -/

/-- A name that is a step of its own: a segment that counts, and not the step up. -/
structure IsName (s : String) : Prop where
  /-- It holds no slash. -/
  slash : '/' ∉ s.toList
  /-- It counts. -/
  counts : counts s = true
  /-- It leads down. -/
  up : s ≠ ".."

/-- A name is not empty. -/
theorem IsName.ne_empty {s : String} (h : IsName s) : s ≠ "" := by
  rintro rfl
  exact absurd h.counts (by decide)

/-- A name is its only segment. -/
theorem IsName.segments {s : String} (h : IsName s) : segments s = [s] := Text.split_of_not_mem h.slash

/-- A name is its only step. -/
theorem IsName.steps {s : String} (h : IsName s) : steps s = [s] := by
  simp [DiskPath.steps, h.segments, h.counts]

/-- A name is a relative path. -/
theorem IsName.isAbsolute {s : String} (h : IsName s) : isAbsolute s = false := by
  rw [← Bool.not_eq_true, isAbsolute_iff]
  rintro ⟨a, rest, hs⟩
  simp [h.segments] at hs

/-- A step that is not the step up is a name. -/
theorem isName_of_mem_steps {path s : String} (h : s ∈ steps path) (hup : s ≠ "..") : IsName s := by
  obtain ⟨hmem, hcounts⟩ := List.mem_filter.1 h
  exact ⟨Text.not_mem_of_mem_split hmem, hcounts, hup⟩

/-- The components of a path are its steps, after the root or a `.` if it begins so. -/
theorem components_eq (path : String) :
    ∃ start, components path = start ++ (steps path).map component ∧
      (∀ s, .name s ∉ start) ∧ (start = [] → isAbsolute path = false) := by
  unfold components
  split
  · exact ⟨[.root], rfl, by simp, by simp⟩
  · next h =>
    split
    · exact ⟨[.here], rfl, by simp, by simp⟩
    · exact ⟨[], rfl, by simp, fun _ => Bool.eq_false_iff.2 h⟩

/-- The file name of a path is its last step. -/
theorem fileName?_eq_some {path name : String} (h : fileName? path = some name) :
    IsName name ∧ ∃ xs, steps path = xs ++ [name] := by
  have hlast : (components path).getLast? = some (.name name) := by
    unfold fileName? at h
    split at h
    · next s hs => cases h; exact hs
    · cases h
  obtain ⟨start, heq, hstart, -⟩ := components_eq path
  rcases List.eq_nil_or_concat (steps path) with hnil | ⟨xs, s, hs⟩
  · rw [heq, hnil, List.map_nil, List.append_nil] at hlast
    exact absurd (List.mem_of_getLast? hlast) (hstart name)
  · rw [List.concat_eq_append] at hs
    rw [heq, hs, List.map_append, List.map_singleton, ← List.append_assoc, List.getLast?_concat,
      Option.some.injEq, component] at hlast
    split at hlast
    · cases hlast
    · next hup =>
      cases hlast
      have hmem : name ∈ steps path := by simp [hs]
      exact ⟨isName_of_mem_steps hmem hup, xs, hs⟩

/-- The last step of a path is its file name, if it does not go up. -/
theorem fileName?_of_steps {path name : String} {xs : List String} (h : steps path = xs ++ [name])
    (hup : name ≠ "..") : fileName? path = some name := by
  obtain ⟨start, heq, -, -⟩ := components_eq path
  have hlast : (components path).getLast? = some (.name name) := by
    rw [heq, h, List.map_append, List.map_singleton, ← List.append_assoc, List.getLast?_concat,
      component, if_neg hup]
  simp [fileName?, hlast]

/-- A path that cannot leave a directory consists of names. -/
theorem isName_of_isContained {path : String} (h : isContained path = true) :
    isAbsolute path = false ∧ steps path ≠ [] ∧ ∀ s ∈ steps path, IsName s := by
  obtain ⟨start, heq, hstart, habs⟩ := components_eq path
  simp only [isContained, Bool.and_eq_true, Bool.not_eq_eq_eq_not, Bool.not_true,
    List.isEmpty_eq_false_iff, List.all_eq_true] at h
  obtain ⟨hne, hall⟩ := h
  have hnil : start = [] := by
    rw [List.eq_nil_iff_forall_not_mem]
    intro c hc
    have := hall c (heq ▸ List.mem_append_left _ hc)
    cases c with
    | name s => exact hstart s hc
    | root => simp at this
    | here => simp at this
    | up => simp at this
  rw [hnil, List.nil_append] at heq
  rw [heq] at hne hall
  refine ⟨habs hnil, by simpa using hne, fun s hs => isName_of_mem_steps hs ?_⟩
  rintro rfl
  simpa [component] using hall _ (List.mem_map_of_mem hs)

/-- A path whose pieces are all names is contained. -/
theorem isContained_of_segments {path : String} (h : ∀ s ∈ segments path, IsName s) : isContained path = true := by
  have habs : isAbsolute path = false := by
    rw [← Bool.not_eq_true, isAbsolute_iff]
    rintro ⟨s, rest, hs⟩
    exact (h "" (by simp [hs])).ne_empty rfl
  have hhere : (segments path).head? ≠ some "." := fun hhead =>
    absurd (h "." (List.mem_of_mem_head? hhead)).counts (by decide)
  have hfilter : (segments path).filter counts = segments path :=
    List.filter_eq_self.2 fun s hs => (h s hs).counts
  have hcomponents : components path = (segments path).map component := by
    simp [components, habs, hhere, hfilter]
  have hne : segments path ≠ [] := Text.split_ne_nil '/' path
  simp only [isContained, hcomponents, List.all_map, Bool.and_eq_true, Bool.not_eq_eq_eq_not, Bool.not_true,
    List.isEmpty_eq_false_iff, ne_eq, List.map_eq_nil_iff, hne, not_false_eq_true, true_and, List.all_eq_true]
  intro s hs
  simp [component, (h s hs).up]

/-- A path whose pieces all count is in normal form. -/
theorem normalize_eq_self {path : String} (h : ∀ s ∈ segments path, counts s = true) :
    ArchivePath.normalize path = path := by
  rw [ArchivePath.normalize, ← steps_eq_archive, steps, List.filter_eq_self.2 h]
  exact Text.join_split '/' path

/-! ## (5) Slashes at the end -/

/-- A path is what is left of it without the slashes at its end, and as many of these. -/
theorem exists_withoutSlashes (path : String) :
    ∃ k, path = withoutSlashes path ++ String.ofList (List.replicate k '/') := by
  have h := List.rdropWhile_append_rtakeWhile (p := (decide <| · = '/')) (l := path.toList)
  have hrep := List.eq_replicate_of_mem (a := '/') (l := path.toList.rtakeWhile (decide <| · = '/'))
    fun c hc => by simpa using List.mem_rtakeWhile_imp hc
  refine ⟨(path.toList.rtakeWhile (decide <| · = '/')).length, String.toList_injective ?_⟩
  rw [← hrep]
  simp only [String.toList_append, withoutSlashes, Text.dropEndWhile, String.toList_ofList]
  exact h.symm

/-- Slashes at the end add as many empty segments. -/
theorem segments_append_slashes (path : String) (k : Nat) :
    segments (path ++ String.ofList (List.replicate k '/')) = segments path ++ List.replicate k "" := by
  induction k generalizing path with
  | zero => simp
  | succ k ih =>
    have hsucc : path ++ String.ofList (List.replicate (k + 1) '/')
        = path ++ "/" ++ String.ofList (List.replicate k '/') :=
      String.toList_injective (by simp [List.replicate_succ])
    have hslash : segments (path ++ "/") = segments path ++ [""] := by
      have := Text.split_append_slash path ""
      simpa [segments, Text.split, Text.splitChars] using this
    rw [hsucc, ih, hslash, List.append_assoc, List.replicate_succ, List.singleton_append]

/-- Slashes at the end are no steps. -/
theorem steps_withoutSlashes (path : String) : steps (withoutSlashes path) = steps path := by
  obtain ⟨k, hk⟩ := exists_withoutSlashes path
  have hempty : counts "" = false := by decide
  conv_rhs => rw [hk, steps, segments_append_slashes, List.filter_append]
  simp [steps, hempty]

/-- Slashes at the beginning are no steps. -/
theorem steps_dropSlashes (path : String) : steps (Text.dropStartWhile (· = '/') path) = steps path := by
  have hchars : ∀ cs : List Char, steps (String.ofList (cs.dropWhile (· = '/'))) = steps (String.ofList cs) := by
    intro cs
    induction cs with
    | nil => rfl
    | cons c cs ih =>
      by_cases hc : c = '/'
      · subst hc
        have hslash : String.ofList ('/' :: cs) = "" ++ "/" ++ String.ofList cs := String.toList_injective (by simp)
        rw [List.dropWhile_cons_of_pos (by simp), ih, hslash, steps_append_slash]
        rfl
      · rw [List.dropWhile_cons_of_neg (by simpa using hc)]
  rw [Text.dropStartWhile, hchars, String.ofList_toList]

/-- They add no steps. -/
theorem steps_bare (path : String) : steps (FileTree.bare path) = steps path := by
  unfold FileTree.bare
  split
  · next h => rw [← steps_withoutSlashes path, h.2]; decide
  · exact steps_withoutSlashes path

/-- Nor do they make a path absolute. -/
theorem isAbsolute_bare (path : String) : isAbsolute (FileTree.bare path) = isAbsolute path := by
  obtain ⟨k, hk⟩ := exists_withoutSlashes path
  unfold FileTree.bare
  split
  · next h =>
    have hpos : 0 < k := by
      rcases Nat.eq_zero_or_pos k with rfl | hpos
      · exact absurd (by simpa [h.2] using hk) h.1
      · exact hpos
    obtain ⟨m, rfl⟩ := Nat.exists_eq_succ_of_ne_zero hpos.ne'
    rw [hk, h.2]
    simp [isAbsolute, Text.startsWith, List.replicate_succ, List.isPrefixOf]
  · next h =>
    by_cases hne : withoutSlashes path = ""
    · have : path = "" := by simpa [hne] using h
      rw [hne, this]
    · conv_rhs => rw [hk]
      rw [isAbsolute_append hne]

/-- A path whose last segment is a name has no slashes at its end. -/
theorem bare_eq_self {path name : String} {segs : List String} (h : segments path = segs ++ [name])
    (hne : name ≠ "") : FileTree.bare path = path := by
  obtain ⟨k, hk⟩ := exists_withoutSlashes path
  have hzero : k = 0 := by
    rcases k with _ | k
    · rfl
    · rw [hk, segments_append_slashes, List.replicate_succ', ← List.append_assoc] at h
      exact absurd (List.append_inj' h rfl).2 (by simpa using hne.symm)
  have heq : withoutSlashes path = path := by rw [hzero] at hk; simpa using hk.symm
  unfold FileTree.bare
  rw [heq]
  simp

end DiskPath

/-! ## (6) Files beside others -/

namespace DiskPath

/-- A point, a name and an ending make a name. -/
theorem isName_hidden {name ending : String} (hname : '/' ∉ name.toList) (hending : '/' ∉ ending.toList)
    (hlong : 2 ≤ ending.toList.length) : IsName ("." ++ name ++ ending) := by
  have hlist : ("." ++ name ++ ending).toList = '.' :: (name.toList ++ ending.toList) := by simp
  have hlength : 3 ≤ ("." ++ name ++ ending).toList.length := by
    rw [hlist, List.length_cons, List.length_append]; omega
  refine ⟨?_, ?_, ?_⟩
  · rw [hlist]
    simp [hname, hending]
  · simp only [DiskPath.counts, Bool.and_eq_true, decide_eq_true_eq, ne_eq]
    refine ⟨?_, ?_⟩ <;> intro h <;> rw [h] at hlength <;> exact absurd hlength (by decide)
  · intro h
    rw [h] at hlength
    exact absurd hlength (by decide)

/-- It is another name. -/
theorem hidden_ne (name ending : String) : "." ++ name ++ ending ≠ name := by
  intro h
  have hlength := congrArg (fun s => s.toList.length) h
  have hdot : ".".toList.length = 1 := by decide
  simp only [String.toList_append, List.length_append] at hlength
  omega

/-- **A file beside another one** takes the same steps but the last one. -/
theorem steps_beside {path front name other : String} {xs : List String} (h : steps path = xs ++ [name])
    (hfront : parent? path = some front) (hother : IsName other) :
    steps (join front other) = xs ++ [other] ∧ isAbsolute (join front other) = isAbsolute path := by
  obtain ⟨front', hfront', hsteps, habs⟩ := exists_parent h
  rw [hfront] at hfront'
  cases hfront'
  rw [steps_join hother.isAbsolute, isAbsolute_join hother.isAbsolute, hsteps, hother.steps]
  exact ⟨rfl, habs⟩

/-- A path that is joined to a name ends with it. -/
theorem segments_join_name {name : String} (h : IsName name) (front : String) :
    ∃ segs, segments (join front name) = segs ++ [name] := by
  obtain ⟨segs, hsegs⟩ := segments_join h.isAbsolute front
  exact ⟨segs, by rw [hsegs, h.segments]⟩

end DiskPath

open DiskPath

/-- No digit is a slash. -/
theorem not_slash_digits (n : Nat) : '/' ∉ Nat.toDigits 10 n := fun h =>
  absurd (Nat.isDigit_of_mem_toDigits (by decide) (by decide) h) (by decide)

/-- The name of a temporary file, without what is inserted into it. -/
theorem Extraction.temporaryName_eq (name : String) (process serial : Nat) : temporaryName name process serial =
    "." ++ name ++ ("." ++ toString process ++ "-" ++ toString serial ++ ".part") := by
  simp only [temporaryName, temporarySuffix, String.append_assoc]

/-- The name of a temporary file is a name. -/
theorem Extraction.isName_temporaryName {name : String} (h : '/' ∉ name.toList) (process serial : Nat) :
    IsName (Extraction.temporaryName name process serial) := by
  rw [temporaryName_eq]
  refine isName_hidden h ?_ ?_
  · simp [not_slash_digits]
  · simp only [String.toList_append, List.length_append]
    have : 2 ≤ ".part".toList.length := by decide
    omega

/-- The same for the temporary file of a store. -/
theorem RecordStore.temporaryName_eq (name : String) (process : Nat) :
    temporaryName name process = "." ++ name ++ ("." ++ toString process ++ ".tmp") := by
  simp only [temporaryName, String.append_assoc]

/-- The temporary file of a store has a name, as the store has. -/
theorem RecordStore.isName_temporaryName {name : String} (h : '/' ∉ name.toList) (process : Nat) :
    IsName (RecordStore.temporaryName name process) := by
  rw [temporaryName_eq]
  refine isName_hidden h ?_ ?_
  · simp [not_slash_digits]
  · simp only [String.toList_append, List.length_append]
    have : 2 ≤ ".tmp".toList.length := by decide
    omega

section Lock

variable [Charset] [LawfulCharset]

/-- A name that is text is spelled by a name. -/
theorem DiskPath.IsName.spell {name : String} (h : IsName name) : IsName (Charset.spell name) := by
  have hback : ∀ s : String, (∀ c ∈ s.toList, c.toNat < 0x80) → Charset.spell name = s → name = s := by
    intro s hs heq
    rw [← Charset.text_spell name, heq, Charset.text_of_lt hs]
  have hcounts := h.counts
  simp only [DiskPath.counts, Bool.and_eq_true, decide_eq_true_eq, ne_eq] at hcounts
  refine ⟨fun hmem => h.slash (Charset.mem_of_mem_spell (by decide) hmem), ?_,
    fun heq => h.up (hback _ (by simp) heq)⟩
  simp only [DiskPath.counts, Bool.and_eq_true, decide_eq_true_eq, ne_eq]
  exact ⟨fun heq => hcounts.1 (hback _ (by simp) heq), fun heq => hcounts.2 (hback _ (by simp) heq)⟩

/-- So does a lock file, as its directory has. -/
theorem Lock.isName_fileName {name : String} (h : '/' ∉ name.toList) : IsName (Lock.fileName name) := by
  have htext : '/' ∉ (Charset.text name).toList := fun hmem => h (Charset.mem_of_mem_text (by decide) hmem)
  exact (isName_hidden htext (by decide) (by decide)).spell

/-- **The lock file of a directory stands beside it.** -/
theorem Lock.exists_of_path {dir lock : String} (h : Lock.path dir = .ok lock) :
    ∃ xs name, IsName name ∧ steps dir = xs ++ [name] ∧ steps lock = xs ++ [Lock.fileName name] ∧
      isAbsolute lock = isAbsolute dir ∧ ∃ segs, segments lock = segs ++ [Lock.fileName name] := by
  unfold Lock.path at h
  split at h
  · next parent name hparent hname =>
    split at h
    · cases h
    · cases h
      obtain ⟨hisName, xs, hsteps⟩ := fileName?_eq_some hname
      have hlock := Lock.isName_fileName hisName.slash
      have hbeside := steps_beside hsteps hparent hlock
      exact ⟨xs, name, hisName, hsteps, hbeside.1, hbeside.2, segments_join_name hlock _⟩
  · cases h

end Lock

end LayeredBundles
