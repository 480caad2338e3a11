import LayeredBundles.Config.Load
import LayeredBundles.Proofs.Artifacts
import LayeredBundles.Proofs.Lookups

/-! # Settings that are read from a file

The paths in a file of settings are seen from the directory of the file, and that is done after the settings are
checked. Of all that is checked only one thing can be lost on the way: that no two roots have the same extraction
directory.

* **`Settings.same_of_pathFrom`** — paths that begin alike are as different afterwards as they were before;
* **`Settings.checkRoots_cases`** — roots that are fine one by one pass the check, or the first one is named that shares
  its directory with an earlier one;
* **`Settings.load_checked_iff`** — when settings from a file pass their check, and what is said if they do not. -/

namespace LayeredBundles

open DiskPath Fallible

/-! ## (1) Paths seen from a directory -/

namespace DiskPath

variable {p q base : String}

/-- The step that a component was made of. -/
def Component.step? : Component → Option String
  | .up => some ".."
  | .name s => some s
  | _ => none

/-- A component is told by its step. -/
theorem step?_component (s : String) : (component s).step? = some s := by
  unfold component
  split
  · next h => exact congrArg some h.symm
  · rfl

/-- The steps of a path can be told from its components. -/
theorem filterMap_components (path : String) : (components path).filterMap Component.step? = steps path := by
  have hsteps : ((steps path).map component).filterMap Component.step? = steps path := by
    rw [List.filterMap_map, show Component.step? ∘ component = some from funext step?_component, List.filterMap_some]
  unfold components
  split
  · exact hsteps
  · split
    · exact hsteps
    · exact hsteps

/-- The same paths take the same steps. -/
theorem steps_eq_of_same (h : same p q = true) : steps p = steps q := by
  rw [same, decide_eq_true_eq] at h
  rw [← filterMap_components, h, filterMap_components]

/-- What a path begins with: a slash, a point, or a name. -/
def beginning (path : String) : String := (lead path).1

/-- A path is absolute if it begins at the root. -/
theorem isAbsolute_iff_beginning : isAbsolute p = true ↔ beginning p = "/" := by
  unfold beginning lead
  split
  · next h => simp [h]
  · next h => split <;> simp [h]

/-- Paths are the same that begin alike and take the same steps. -/
theorem same_of_steps (hstart : beginning p = beginning q) (hsteps : steps p = steps q) : same p q = true := by
  have hcomponents : ∀ path, components path =
      if beginning path = "/" then .root :: (steps path).map component
      else if beginning path = "." then .here :: (steps path).map component
      else (steps path).map component := by
    intro path
    unfold components beginning lead
    by_cases habs : isAbsolute path = true
    · simp [habs, steps]
    · by_cases hhere : (segments path).head? = some "." <;> simp [habs, hhere, steps]
  rw [same, decide_eq_true_eq, hcomponents, hcomponents, hstart, hsteps]

end DiskPath

namespace Settings

variable {p q base : String}

/-- An absolute path is seen from anywhere as it is. -/
theorem pathFrom_of_absolute (h : isAbsolute p = true) (base : String) : pathFrom base p = p := if_pos h

/-- A relative one is joined to where it is seen from. -/
theorem pathFrom_of_relative (h : isAbsolute p = false) (base : String) : pathFrom base p = join base p :=
  if_neg (Bool.eq_false_iff.1 h)

/-- No path is seen as an empty one. -/
theorem pathFrom_ne_empty (h : p ≠ "") (base : String) : pathFrom base p ≠ "" := by
  unfold pathFrom join
  split
  · exact h
  · split <;> simp [h]

/-- Seen from no directory, a path is what it was. -/
theorem pathFrom_empty (p : String) : pathFrom "" p = p := by
  unfold pathFrom join
  split
  · rfl
  · simp

/-- **Paths that begin alike** are the same seen from a directory only if they were the same before. -/
theorem same_of_pathFrom (hstart : beginning p = beginning q) (h : same (pathFrom base p) (pathFrom base q) = true) :
    same p q = true := by
  have hsteps := steps_eq_of_same h
  cases hp : isAbsolute p with
  | true =>
    have hq : isAbsolute q = true := isAbsolute_iff_beginning.2 (hstart ▸ isAbsolute_iff_beginning.1 hp)
    rwa [pathFrom_of_absolute hp, pathFrom_of_absolute hq] at h
  | false =>
    have hq : isAbsolute q = false := by
      rw [← Bool.not_eq_true, isAbsolute_iff_beginning, ← hstart, ← isAbsolute_iff_beginning, hp]
      exact Bool.false_ne_true
    rw [pathFrom_of_relative hp, pathFrom_of_relative hq, steps_join hp, steps_join hq] at hsteps
    exact same_of_steps hstart (List.append_cancel_left hsteps)

/-! ## (2) The check, rule by rule -/

/-- Layers pass their check if all have names, and no two the same. The directory is only told. -/
theorem checkLayers_eq_ok_iff {dir : String} {seen : List String} {ls : List LayerSettings} :
    checkLayers dir seen ls = .ok () ↔
      (∀ l ∈ ls, l.name ≠ "" ∧ l.name ∉ seen) ∧ (ls.map (·.name)).Nodup := by
  induction ls generalizing seen with
  | nil => simp [checkLayers]
  | cons l ls ih =>
    unfold checkLayers
    by_cases hname : l.name = ""
    · simp [hname]
    by_cases hseen : l.name ∈ seen
    · simp [hname, hseen]
    rw [if_neg hname, if_neg (by simpa using hseen), ih, List.forall_mem_cons, List.map_cons, List.nodup_cons]
    simp only [List.mem_cons, not_or, List.mem_map, not_exists, not_and]
    constructor
    · rintro ⟨hrest, hnodup⟩
      exact ⟨⟨⟨hname, hseen⟩, fun l' hl' => ⟨(hrest l' hl').1, (hrest l' hl').2.2⟩⟩,
        fun l' hl' => (hrest l' hl').2.1, hnodup⟩
    · rintro ⟨⟨-, hrest⟩, hnew, hnodup⟩
      exact ⟨fun l' hl' => ⟨(hrest l' hl').1, hnew l' hl', (hrest l' hl').2⟩, hnodup⟩

/-- A root that is fine by itself: it has a directory, and its layers pass their check. -/
def IsFine (r : RootSettings) : Prop := r.extractDir ≠ "" ∧ checkLayers r.extractDir [] r.layers = .ok ()

/-- `SharesDir seen r`: the directory of the root is one of those. -/
def SharesDir (seen : List String) (r : RootSettings) : Prop := ∃ dir ∈ seen, same r.extractDir dir = true

/-- No two of the roots have the same directory. -/
def Distinct (rs : List RootSettings) : Prop := rs.Pairwise fun r r' => same r'.extractDir r.extractDir = false

/-- Roots that pass the check are fine one by one. -/
theorem isFine_of_checkRoots {rs : List RootSettings} {seen : List String} (h : checkRoots seen rs = .ok ()) :
    ∀ r ∈ rs, IsFine r := by
  induction rs generalizing seen with
  | nil => exact List.forall_mem_nil _
  | cons r rs ih =>
    unfold checkRoots at h
    split at h
    · cases h
    next hdir =>
    split at h
    · cases h
    obtain ⟨⟨⟩, hlayers, hrest⟩ := exists_of_bind_eq_ok h
    exact List.forall_mem_cons.2 ⟨⟨hdir, hlayers⟩, ih hrest⟩

/-- **Roots that are fine one by one** pass the check if no two share a directory; else the first one that shares its
directory with an earlier one is named. -/
theorem checkRoots_verdict {rs : List RootSettings} (hfine : ∀ r ∈ rs, IsFine r) (seen : List String) :
    (checkRoots seen rs = .ok () ∧ Distinct rs ∧ ∀ r ∈ rs, ¬ SharesDir seen r) ∨
    ∃ before r after, rs = before ++ r :: after ∧ Distinct before ∧ (∀ r ∈ before, ¬ SharesDir seen r) ∧
      SharesDir (before.map (·.extractDir) ++ seen) r ∧
      checkRoots seen rs = .error (.sharedExtractDir r.extractDir) := by
  induction rs generalizing seen with
  | nil => exact .inl ⟨rfl, .nil, List.forall_mem_nil _⟩
  | cons r rs ih =>
    obtain ⟨⟨hdir, hlayers⟩, hrest⟩ := List.forall_mem_cons.1 hfine
    by_cases hshares : SharesDir seen r
    · refine .inr ⟨[], r, rs, rfl, .nil, List.forall_mem_nil _, by simpa using hshares, ?_⟩
      rw [checkRoots, if_neg hdir, if_pos (List.any_eq_true.2 hshares)]
    · have hstep : checkRoots seen (r :: rs) = checkRoots (r.extractDir :: seen) rs := by
        rw [checkRoots, if_neg hdir, if_neg (fun h => hshares (List.any_eq_true.1 h)), hlayers]
        rfl
      -- What is new to the directories before and to this one, is new to those before.
      have hnew : ∀ {rs : List RootSettings}, Distinct rs → (∀ r' ∈ rs, ¬ SharesDir (r.extractDir :: seen) r') →
          Distinct (r :: rs) ∧ ∀ r' ∈ r :: rs, ¬ SharesDir seen r' := by
        intro rs hdistinct hnew
        refine ⟨List.pairwise_cons.2 ⟨fun r' hr' => ?_, hdistinct⟩, List.forall_mem_cons.2 ⟨hshares, ?_⟩⟩
        · exact Bool.eq_false_iff.2 fun hsame => hnew r' hr' ⟨_, List.mem_cons_self, hsame⟩
        · exact fun r' hr' ⟨dir, hmem, hsame⟩ => hnew r' hr' ⟨dir, List.mem_cons_of_mem _ hmem, hsame⟩
      rw [hstep]
      rcases ih hrest (r.extractDir :: seen) with
        ⟨hok, hdistinct, hothers⟩ | ⟨before, r', after, rfl, hdistinct, hothers, hshared, herror⟩
      · exact .inl ⟨hok, hnew hdistinct hothers⟩
      · refine .inr ⟨r :: before, r', after, rfl, (hnew hdistinct hothers).1, (hnew hdistinct hothers).2, ?_, herror⟩
        obtain ⟨dir, hmem, hsame⟩ := hshared
        refine ⟨dir, ?_, hsame⟩
        simp only [List.map_cons, List.cons_append, List.mem_cons, List.mem_append] at hmem ⊢
        tauto

/-- **All roots of a list**: no two share a directory, or the first one that does is named. -/
theorem checkRoots_cases {rs : List RootSettings} (hfine : ∀ r ∈ rs, IsFine r) :
    (checkRoots [] rs = .ok () ∧ Distinct rs) ∨
    ∃ before r r' after, rs = before ++ r :: after ∧ r' ∈ before ∧ same r.extractDir r'.extractDir = true ∧
      Distinct before ∧ checkRoots [] rs = .error (.sharedExtractDir r.extractDir) := by
  rcases checkRoots_verdict hfine [] with
    ⟨hok, hdistinct, -⟩ | ⟨before, r, after, hsplit, hdistinct, -, ⟨dir, hmem, hsame⟩, herror⟩
  · exact .inl ⟨hok, hdistinct⟩
  · rw [List.append_nil] at hmem
    obtain ⟨r', hr', rfl⟩ := List.mem_map.1 hmem
    exact .inr ⟨before, r, r', after, hsplit, hr', hsame, hdistinct, herror⟩

/-- Roots that are fine one by one pass the check if and only if no two share a directory. -/
theorem checkRoots_eq_ok_iff {rs : List RootSettings} (hfine : ∀ r ∈ rs, IsFine r) :
    checkRoots [] rs = .ok () ↔ Distinct rs := by
  rcases checkRoots_cases hfine with ⟨hok, hdistinct⟩ | ⟨before, r, r', after, rfl, hr', hsame, -, herror⟩
  · exact iff_of_true hok hdistinct
  · -- The two roots with one directory stand in the list.
    refine iff_of_false (by simp [herror]) fun hdistinct => ?_
    have hdiffer := (List.pairwise_append.1 hdistinct).2.2 r' hr' r List.mem_cons_self
    exact Bool.false_ne_true (hdiffer.symm.trans hsame)

/-- Settings that pass the check, with other roots in place of theirs, are checked root by root. -/
theorem check_of_roots {c c' : Settings} (h : c.check = .ok ()) (htimeout : c'.lockTimeout = c.lockTimeout)
    (hlayout : c'.layout = c.layout) (hdirs : c'.libraryDirs = c.libraryDirs) :
    checkRoots [] c.roots = .ok () ∧ c'.check = checkRoots [] c'.roots := by
  unfold check at h ⊢
  rw [htimeout, hlayout, hdirs]
  split at h
  · cases h
  next hpositive =>
  split at h
  · cases h
  next hmarker =>
  obtain ⟨⟨⟩, hsuffixes, h⟩ := exists_of_bind_eq_ok h
  obtain ⟨⟨⟩, hlibraries, hroots⟩ := exists_of_bind_eq_ok h
  refine ⟨hroots, ?_⟩
  rw [if_neg hpositive, if_neg hmarker, hsuffixes, hlibraries]
  rfl

/-! ## (3) Settings from a file -/

variable {path text : String} {c written : Settings} {w w' : Workspace}

/-- Seen from no directory, settings are what they were. -/
theorem seenFrom_empty (s : Settings) : s.seenFrom "" = s := by
  have hpath : pathFrom "" = id := funext pathFrom_empty
  unfold seenFrom
  simp [hpath]

/-- Seen from a directory, roots are as fine as they were. -/
theorem isFine_seenFrom (h : ∀ r ∈ written.roots, IsFine r) (base : String) :
    ∀ r ∈ (written.seenFrom base).roots, IsFine r := by
  intro r hr
  obtain ⟨r, hmem, rfl⟩ := List.mem_map.1 hr
  obtain ⟨hdir, hlayers⟩ := h r hmem
  refine ⟨pathFrom_ne_empty hdir base, ?_⟩
  rw [checkLayers_eq_ok_iff] at hlayers ⊢
  simpa [Function.comp_def] using hlayers

/-- Settings that were parsed have passed their check. -/
theorem check_of_parse (h : parse text = .ok written) : written.check = .ok () := by
  unfold parse at h
  split at h
  · cases h
  · obtain ⟨json, -, h⟩ := exists_of_bind_eq_ok h
    unfold ofLayers at h
    split at h
    · cases h
    · obtain ⟨⟨⟩, hcheck, h⟩ := exists_of_bind_eq_ok h
      cases h
      exact hcheck

/-- **What is read from a file**: its text as settings, seen from its directory. -/
theorem exists_of_load (h : (load path).outcome w = (.ok c, w')) : ∃ text written, w.tree.readText path = .ok text ∧
    parse text = .ok written ∧ c = written.seenFrom ((parent? path).getD "") := by
  unfold load at h
  obtain ⟨text, w₁, htext, h⟩ := exists_of_outcome_bind_ok h
  obtain ⟨written, w₂, hparse, h⟩ := exists_of_outcome_bind_ok h
  rw [outcome_ofExcept, Prod.mk.injEq] at hparse
  rw [readConfigText, outcome_failingAs, Workspace.outcome_ask, Prod.mk.injEq, mapError_eq_ok] at htext
  refine ⟨text, written, htext.1, hparse.1, ?_⟩
  cases hparent : parent? path with
  | none =>
    rw [hparent] at h
    cases h
    exact (seenFrom_empty c).symm
  | some base =>
    rw [hparent] at h
    cases h
    rfl

/-- **Settings from a file** have passed their check as they are written. Seen from the directory of the file

1. they pass it if and only if no two roots have the same extraction directory, whatever else they say;
2. else the first root is named that shares its directory with an earlier one;
3. roots that share a directory then are written with directories that begin differently: one with a slash, one with a
  point or one with a name. -/
theorem load_checked_iff (h : (load path).outcome w = (.ok c, w')) :
    ∃ text written, w.tree.readText path = .ok text ∧ parse text = .ok written ∧ written.check = .ok () ∧
      c = written.seenFrom ((parent? path).getD "") ∧
      (c.check = .ok () ↔ c.roots.Pairwise fun r r' => same r'.extractDir r.extractDir = false) ∧
      (c.check ≠ .ok () → ∃ before r r' after, c.roots = before ++ r :: after ∧ r' ∈ before ∧
        same r.extractDir r'.extractDir = true ∧
        (before.Pairwise fun r r' => same r'.extractDir r.extractDir = false) ∧
        c.check = .error (.sharedExtractDir r.extractDir)) ∧
      written.roots.Pairwise fun r r' =>
        same (pathFrom ((parent? path).getD "") r'.extractDir) (pathFrom ((parent? path).getD "") r.extractDir) = true →
          beginning r'.extractDir ≠ beginning r.extractDir := by
  obtain ⟨text, written, htext, hparse, hc⟩ := exists_of_load h
  have hcheck := check_of_parse hparse
  refine ⟨text, written, htext, hparse, hcheck, hc, ?_⟩
  generalize (parent? path).getD "" = base at hc ⊢
  subst hc
  obtain ⟨hroots, hchecked⟩ : checkRoots [] written.roots = .ok () ∧
      (written.seenFrom base).check = checkRoots [] (written.seenFrom base).roots := check_of_roots hcheck rfl rfl rfl
  have hfine := isFine_of_checkRoots hroots
  have hfine' := isFine_seenFrom hfine base
  rw [hchecked]
  refine ⟨checkRoots_eq_ok_iff hfine', fun hnot => ?_, ?_⟩
  · exact (checkRoots_cases hfine').resolve_left fun hok => hnot hok.1
  · refine ((checkRoots_eq_ok_iff hfine).1 hroots).imp fun {r r'} hdiffer hsame hstart => ?_
    exact Bool.false_ne_true (hdiffer.symm.trans (same_of_pathFrom hstart hsame))

/-- A workspace with one file of settings, which names a root for each of two directories. -/
def twoDirs (first second : String) : Workspace :=
  .ofTree (FileTree.empty.bind ["c.toml"] (.file ("[[roots]]\nextract_dir = \"" ++ first ++
    "\"\n[[roots]]\nextract_dir = \"" ++ second ++ "\"\n").toUTF8 Instant.epoch))

/-- The settings of two roots without layers. -/
def ofTwoDirs (first second : String) : Settings :=
  { standard with roots := [⟨first, [], []⟩, ⟨second, [], []⟩] }

/-- **Settings from a file can fail their check**: an absolute directory and a relative one are different as they are
written, and the same seen from the directory of the file. -/
theorem twoDirs_refused : ((load "/c.toml").outcome (twoDirs "/x" "x")).1 = .ok (ofTwoDirs "/x" "/x") ∧
    (ofTwoDirs "/x" "/x").check = .error (.sharedExtractDir "/x") := by
  constructor
  · decide +kernel
  · decide +kernel

/-- With directories of different names, they pass it. -/
theorem twoDirs_checked : ∃ w', (load "/c.toml").outcome (twoDirs "/x" "y") = (.ok (ofTwoDirs "/x" "/y"), w') ∧
    (ofTwoDirs "/x" "/y").check = .ok () := by
  have hload : ((load "/c.toml").outcome (twoDirs "/x" "y")).1 = .ok (ofTwoDirs "/x" "/y") := by decide +kernel
  have houtcome := outcome_eq_of_fst hload
  obtain ⟨-, -, -, -, -, -, hiff, -⟩ := load_checked_iff houtcome
  exact ⟨_, houtcome, hiff.2 (by decide +kernel)⟩

end Settings

end LayeredBundles
