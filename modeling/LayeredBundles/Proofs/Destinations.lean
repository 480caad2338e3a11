import LayeredBundles.Config.Settings
import LayeredBundles.Proofs.Names

/-! # Where artifacts may stand

A path that consists of names stays below the directory it is joined to, and nothing else does: this is asked by
components of the file system, while the path inside the archive has a normal form of its own. Both drop the same
segments, except for a `.` at the beginning, which is a component. So a path that is let through has its normal form as
its components, and the destination is the directory followed by them.

* **`DiskPath.isContained_iff`** — which paths stay below the directory they are joined to, told from their text;
* **`DiskPath.components_join`** — a path joined to a directory adds its steps;
* **`Extraction.components_artifactPath`** — where an artifact stands;
* **`Extraction.destinations_canonical`** — all this together: one destination for each normal form. -/

namespace LayeredBundles

namespace DiskPath

variable {path base : String}

/-! ## (1) Paths that stay below -/

/-- A relative path that begins with no `.` has its steps as components. -/
theorem components_of_relative (habs : isAbsolute path = false) (hhere : (segments path).head? ≠ some ".") :
    components path = (steps path).map component := by
  simp [components, habs, hhere, steps]

/-- All components are names, and there is one. -/
theorem isContained_iff_names : isContained path = true ↔
    components path ≠ [] ∧ ∀ c ∈ components path, ∃ s, c = .name s := by
  rw [isContained, Bool.and_eq_true, Bool.not_eq_true', List.isEmpty_eq_false_iff, List.all_eq_true]
  refine and_congr_right fun _ => forall₂_congr fun c _ => ?_
  cases c <;> simp

/-- The components of steps are names when none of them leads up. -/
theorem names_component_iff {segs : List String} :
    (∀ c ∈ segs.map component, ∃ s, c = .name s) ↔ ".." ∉ segs := by
  rw [List.forall_mem_map]
  constructor
  · intro hall hmem
    obtain ⟨s, hs⟩ := hall ".." hmem
    cases hs
  · intro hno s hs
    have hne : s ≠ ".." := fun heq => hno (heq ▸ hs)
    exact ⟨s, if_neg hne⟩

/-- **Which paths stay below the directory they are joined to**: relative ones that begin with no `.`, have no step up,
and lead somewhere. -/
theorem isContained_iff : isContained path = true ↔
    isAbsolute path = false ∧ (segments path).head? ≠ some "." ∧ ".." ∉ segments path ∧
      ∃ s ∈ segments path, counts s = true := by
  by_cases habs : isAbsolute path = true
  · simp [isContained, components, habs]
  by_cases hhere : (segments path).head? = some "."
  · simp [isContained, components, habs, hhere]
  rw [Bool.not_eq_true] at habs
  have hup : ".." ∈ steps path ↔ ".." ∈ segments path := by
    have hcounts : counts ".." = true := by decide
    rw [steps, List.mem_filter, and_iff_left hcounts]
  have hsome : steps path ≠ [] ↔ ∃ s ∈ segments path, counts s = true := by
    simp [steps]
  rw [isContained_iff_names, components_of_relative habs hhere, names_component_iff, hup, ne_eq, List.map_eq_nil_iff,
    ← ne_eq, hsome, and_comm]
  simp [habs, hhere]

/-! ## (2) Joined paths -/

/-- A joined path begins as its first part does. -/
theorem head?_segments_join (hbase : base ≠ "") (hpath : isAbsolute path = false) :
    (segments (join base path)).head? = (segments base).head? := by
  have hfirst : ∀ front rest : String, (segments (front ++ "/" ++ rest)).head? = (segments front).head? := by
    intro front rest
    rw [segments, Text.split_append_slash, List.head?_append_of_ne_nil _ (Text.split_ne_nil '/' front), segments]
  simp only [join, hpath, Bool.false_eq_true, ↓reduceIte, hbase, decide_false, Bool.false_or]
  split
  · next hslash =>
    obtain ⟨front, rfl⟩ := Text.endsWith_iff.1 hslash
    rw [hfirst, ← hfirst front "", String.append_empty]
  · exact hfirst base path

/-- **A path joined to a directory adds its steps.** -/
theorem components_join (habs : isAbsolute path = false) (hhere : (segments path).head? ≠ some ".") :
    components (join base path) = components base ++ (steps path).map component := by
  by_cases hbase : base = ""
  · have hempty : components "" = [] := by decide
    have hjoin : join "" path = path := by simp [join, habs]
    rw [hbase, hjoin, hempty, List.nil_append, components_of_relative habs hhere]
  · have hsteps := steps_join habs base
    simp only [steps] at hsteps
    simp only [components, isAbsolute_join habs, head?_segments_join hbase habs, hsteps, List.map_append, steps]
    split_ifs <;> rfl

end DiskPath

/-! ## (3) Library directories -/

/-- A library directory is allowed if it stays below. -/
theorem Settings.checkLibraryDirs_singleton (path : String) : checkLibraryDirs [path] =
    if DiskPath.isContained path then .ok () else .error (.badLibraryDir path) := rfl

/-! ## (4) Destinations -/

namespace Extraction

variable {dir p q dest dest' : String}

/-- A path that is let through. -/
theorem contained_eq_ok : contained p = .ok p ↔ DiskPath.isContained p = true := by
  unfold contained
  split <;> simp_all

/-- The destination of a contained path is the path joined to the directory; other paths have none. -/
theorem artifactPath_eq_ok : artifactPath dir p = .ok dest ↔
    DiskPath.isContained p = true ∧ DiskPath.join dir p = dest := by
  unfold artifactPath contained
  split
  · next h => simp [h, Except.map]
  · next h => simp [h, Except.map]

/-- The normal form of a path that is let through has its steps as pieces, and these are names. -/
theorem components_of_contained (h : DiskPath.isContained p = true) :
    ArchivePath.normalize p ≠ "" ∧
      (DiskPath.steps p).map DiskPath.component = (Text.split '/' (ArchivePath.normalize p)).map .name := by
  obtain ⟨-, hsome, hnames⟩ := DiskPath.isName_of_isContained h
  have hne : ArchivePath.normalize p ≠ "" := by
    intro hroot
    refine hsome ?_
    rw [DiskPath.steps_eq_archive, ← ArchivePath.segments_normalize, hroot, ArchivePath.segments_empty]
  refine ⟨hne, ?_⟩
  rw [← ArchivePath.segments_eq_split (ArchivePath.normalize_normalize p) hne, ArchivePath.segments_normalize,
    ← DiskPath.steps_eq_archive]
  exact List.map_congr_left fun s hs => if_neg (hnames s hs).up

/-- **Where an artifact stands**: the directory, followed by the normal form of the path. -/
theorem components_artifactPath (h : artifactPath dir p = .ok dest) :
    DiskPath.components dest
      = DiskPath.components dir ++ (Text.split '/' (ArchivePath.normalize p)).map .name := by
  obtain ⟨hcontained, rfl⟩ := artifactPath_eq_ok.1 h
  obtain ⟨habs, hhere, -⟩ := DiskPath.isContained_iff.1 hcontained
  rw [DiskPath.components_join habs hhere, (components_of_contained hcontained).2]

/-- **One destination for each normal form.** -/
theorem same_artifactPath_iff (hp : artifactPath dir p = .ok dest) (hq : artifactPath dir q = .ok dest') :
    DiskPath.same dest dest' = true ↔ ArchivePath.normalize p = ArchivePath.normalize q := by
  rw [DiskPath.same, decide_eq_true_eq, components_artifactPath hp, components_artifactPath hq,
    List.append_cancel_left_eq]
  constructor
  · intro heq
    have hsplit := List.map_injective_iff.2 (fun _ _ => DiskPath.Component.name.inj) heq
    rw [← Text.join_split '/' (ArchivePath.normalize p), hsplit, Text.join_split]
  · exact fun heq => heq ▸ rfl

/-- **Containment is decided exactly, and destinations are canonical.** A path is let through exactly if it is allowed
as a library directory, and exactly if it does not begin with a slash, its first piece is not `.`, no piece leads up and
some piece is neither empty nor `.`; otherwise it is refused by name. Its destination below any directory consists of
the components of the directory and then the pieces of the normal form, of which there is at least one. So all spellings
of one path share a destination, and paths of different normal forms never do. -/
theorem destinations_canonical (p : String) :
    (contained p = .ok p ↔ Settings.checkLibraryDirs [p] = .ok ()) ∧
    (contained p = .ok p ↔ Text.startsWith "/" p = false ∧ (Text.split '/' p).head? ≠ some "." ∧
      ".." ∉ Text.split '/' p ∧ ∃ s ∈ Text.split '/' p, s ≠ "" ∧ s ≠ ".") ∧
    (contained p ≠ .ok p → contained p = .error (.accessDenied p) ∧
      Settings.checkLibraryDirs [p] = .error (.badLibraryDir p) ∧
      ∀ dir, artifactPath dir p = .error (.accessDenied p)) ∧
    (contained p = .ok p → ArchivePath.normalize p ≠ "" ∧ ∀ dir, ∃ dest, artifactPath dir p = .ok dest ∧
      DiskPath.components dest
        = DiskPath.components dir ++ (Text.split '/' (ArchivePath.normalize p)).map .name) ∧
    ∀ q dir dest dest', artifactPath dir p = .ok dest → artifactPath dir q = .ok dest' →
      (DiskPath.same dest dest' = true ↔ ArchivePath.normalize p = ArchivePath.normalize q) := by
  refine ⟨?_, ?_, fun hrefused => ?_, fun hlet => ?_, fun q dir dest dest' => same_artifactPath_iff⟩
  · rw [contained_eq_ok, Settings.checkLibraryDirs_singleton]
    split <;> simp_all
  · rw [contained_eq_ok, DiskPath.isContained_iff]
    simp [DiskPath.isAbsolute, DiskPath.segments, DiskPath.counts]
  · rw [ne_eq, contained_eq_ok, Bool.not_eq_true] at hrefused
    simp [contained, artifactPath, Settings.checkLibraryDirs_singleton, hrefused, Except.map]
  · rw [contained_eq_ok] at hlet
    refine ⟨(components_of_contained hlet).1, fun dir => ⟨DiskPath.join dir p, ?_⟩⟩
    have hdest : artifactPath dir p = .ok (DiskPath.join dir p) := artifactPath_eq_ok.2 ⟨hlet, rfl⟩
    exact ⟨hdest, components_artifactPath hdest⟩

/-- Inner spellings of nothing are accepted and do not matter; one in front is refused. -/
theorem destinations_canonical_of_spellings :
    (contained "pkg//./m.py" = .ok "pkg//./m.py" ∧ contained "./pkg/m.py" ≠ .ok "./pkg/m.py") ∧
    ArchivePath.normalize "pkg//./m.py" ≠ "" ∧
    Settings.checkLibraryDirs ["./pkg/m.py"] = .error (.badLibraryDir "./pkg/m.py") ∧
    DiskPath.same "/x/pkg//./m.py" "/x/pkg/m.py/" = true := by
  obtain ⟨-, -, -, hlet, hsame⟩ := destinations_canonical "pkg//./m.py"
  obtain ⟨-, -, hrefused, -⟩ := destinations_canonical "./pkg/m.py"
  have hrefuses : contained "./pkg/m.py" ≠ .ok "./pkg/m.py" := by decide
  refine ⟨⟨by decide, hrefuses⟩, (hlet (by decide)).1, (hrefused hrefuses).2.1, ?_⟩
  exact (hsame "pkg/m.py/" "/x/" _ _ (by decide) (by decide)).2 (by decide)

end Extraction

end LayeredBundles
