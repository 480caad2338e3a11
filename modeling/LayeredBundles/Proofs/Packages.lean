import Mathlib.Data.List.Perm.Subperm
import LayeredBundles.Proofs.Answers
import LayeredBundles.Proofs.Catalogs
import LayeredBundles.Proofs.Unpacking

/-! # What a package is unpacked from

Unpacking a package walks down the directories of one layer after another and stops at directories that are packages
themselves. The walk is bounded by the number of entries, which is enough: every directory on the way is an entry of
its own. So the files it finds can be told without it, and every one of them is made once. A package is remembered
when all of them were made, until a check finds another build.

* **`Root.Covers`** — which files of which layers belong to a package;
* **`Root.mem_packageJobs`**, **`nodup_packageJobs`** — the walk finds exactly these, each once;
* **`Root.Unpacks`** — how making them one after the other ends;
* **`Root.Unchallenged`** — what was done with a root while no check found another build;
* **`Root.unpackPackage_once`** — what unpacking a package does, and for how long it need not be done again. -/

namespace LayeredBundles

open Fallible

/-! ## (1) Going down -/

namespace ArchivePath

variable {dir name : String} {names names' : List String}

/-- The path that goes down from a directory by names, as it is written. -/
def descend (dir : String) (names : List String) : String := names.foldl (fun path n => path ++ "/" ++ n) dir

/-- Without names one stays where one is. -/
@[simp] theorem descend_nil (dir : String) : descend dir [] = dir := rfl

/-- The first name is gone down first. -/
theorem descend_cons (dir name : String) (names : List String) :
    descend dir (name :: names) = descend (dir ++ "/" ++ name) names := rfl

/-- A segment behind a slash is one more segment. -/
theorem segments_slash (dir : String) (h : IsSegment name) :
    segments (dir ++ "/" ++ name) = segments dir ++ [name] := by
  rw [← DiskPath.steps_eq_archive, DiskPath.steps_append_slash, DiskPath.steps_eq_archive, DiskPath.steps_eq_archive,
    h.segments]

/-- Going down by names adds them to the segments. -/
theorem segments_descend (h : ∀ n ∈ names, IsSegment n) : segments (descend dir names) = segments dir ++ names := by
  induction names generalizing dir with
  | nil => simp
  | cons n names ih =>
    rw [descend_cons, ih fun m hm => h m (List.mem_cons_of_mem _ hm), segments_slash dir (h n List.mem_cons_self)]
    simp

/-- Below a directory one is not at the root of a layer. -/
theorem normalize_descend_ne (dir : String) (h : ∀ n ∈ names, IsSegment n) (hne : names ≠ []) :
    normalize (descend dir names) ≠ "" := by
  intro heq
  have hsegments := congrArg segments heq
  rw [segments_normalize, segments_descend h, segments_empty] at hsegments
  exact hne (List.append_eq_nil_iff.1 hsegments).2

/-- Nor is what stands in a directory. -/
theorem normalize_slash_ne (dir : String) (h : IsSegment name) : normalize (dir ++ "/" ++ name) ≠ "" := by
  have hne := normalize_descend_ne dir (List.forall_mem_singleton.2 h) (List.cons_ne_nil name [])
  rwa [descend_cons, descend_nil] at hne

end ArchivePath

open ArchivePath

namespace Layer

variable {l : Layer} {dir child path : String}

/-- What stands somewhere below the root is a directory or a file. -/
theorem isSome_get?_iff (hne : normalize path ≠ "") :
    (l.catalog.get? path).isSome ↔ l.isDirectory path = true ∨ l.isFile path = true := by
  unfold isDirectory isFile Catalog.isDirectory Catalog.isFile
  rcases l.catalog.get? path with _ | e
  · simp [hne]
  · cases hdir : e.isDir <;> simp [hne, hdir]

/-- A directory other than the root is no file. -/
theorem isFile_eq_false_of_isDirectory (hne : normalize path ≠ "") (h : l.isDirectory path = true) :
    l.isFile path = false := by
  unfold isDirectory Catalog.isDirectory at h
  unfold isFile Catalog.isFile
  rcases hget : l.catalog.get? path with _ | e
  · rfl
  · simpa [hget, hne] using h

/-- **The names listed below a directory** are those of its directories and files. -/
theorem mem_children_iff : child ∈ (l.catalog.children? dir).getD [] ↔ l.isDirectory dir = true ∧ IsSegment child ∧
    (l.isDirectory (dir ++ "/" ++ child) = true ∨ l.isFile (dir ++ "/" ++ child) = true) := by
  have hexists : (l.catalog.children? dir).isSome = l.isDirectory dir := by
    rw [isDirectory, l.catalog_eq]
    exact Catalog.isSome_children?
  rcases hchildren : l.catalog.children? dir with _ | names
  · rw [hchildren] at hexists
    simp [← hexists]
  · have hmem : child ∈ names ↔ IsSegment child ∧ (l.catalog.get? (dir ++ "/" ++ child)).isSome := by
      rw [l.catalog_eq] at hchildren ⊢
      exact Catalog.mem_children? hchildren
    rw [hchildren] at hexists
    rw [Option.getD_some, hmem, ← hexists, Option.isSome_some, eq_self, true_and, and_congr_right_iff]
    exact fun hsegment => isSome_get?_iff (normalize_slash_ne dir hsegment)

/-- No name is listed twice. -/
theorem nodup_children (l : Layer) (dir : String) : ((l.catalog.children? dir).getD []).Nodup := by
  rcases hchildren : l.catalog.children? dir with _ | names
  · exact List.nodup_nil
  · rw [l.catalog_eq] at hchildren
    exact ((Catalog.ofList_closed_form _).2.2.1 dir names hchildren).1.imp String.ne_of_lt

end Layer

/-! ## (2) Data files -/

namespace Root

variable {r : Root} {layout : Layout} {l : Layer} {package dir path name : String} {names : List String} {i : Nat}

/-- `r.IsData layout l dir names name`: going down from `dir` by names leads to a data file of the layer, through
directories that are not packages. -/
structure IsData (r : Root) (layout : Layout) (l : Layer) (dir : String) (names : List String) (name : String) :
    Prop where
  /-- The names can be listed. -/
  proper : ∀ n ∈ names ++ [name], IsSegment n
  /-- There is a file. -/
  file : l.isFile (descend dir (names ++ [name])) = true
  /-- On the way there are directories. -/
  directories : ∀ front, front <+: names → l.isDirectory (descend dir front) = true
  /-- No layer makes a package of one of them. -/
  unmarked : ∀ front, front <+: names → front ≠ [] → r.hasMarker layout (descend dir front) = false
  /-- The file does not have the name of a unit. -/
  data : layout.isUnitFile name = false

/-- One directory more on the way. -/
theorem isData_cons {child : String} : r.IsData layout l dir (child :: names) name ↔ l.isDirectory dir = true ∧
    IsSegment child ∧ l.isDirectory (dir ++ "/" ++ child) = true ∧ r.hasMarker layout (dir ++ "/" ++ child) = false ∧
      r.IsData layout l (dir ++ "/" ++ child) names name := by
  constructor
  · intro h
    have hdirectory : ∀ front, front <+: names → l.isDirectory (descend (dir ++ "/" ++ child) front) = true :=
      fun front hfront => h.directories (child :: front) ((List.prefix_cons_inj child).2 hfront)
    refine ⟨h.directories [] List.nil_prefix, h.proper child (by simp), hdirectory [] List.nil_prefix,
      h.unmarked [child] (by simp) (by simp), ⟨fun n hn => h.proper n (List.mem_cons_of_mem _ hn), h.file, hdirectory,
      fun front hfront _ => h.unmarked (child :: front) ((List.prefix_cons_inj child).2 hfront) (by simp), h.data⟩⟩
  · rintro ⟨hdir, hchild, hdirectory, hunmarked, h⟩
    refine ⟨fun n hn => ?_, h.file, fun front hfront => ?_, fun front hfront hne => ?_, h.data⟩
    · rcases List.mem_cons.1 hn with rfl | hn
      · exact hchild
      · exact h.proper n hn
    · rcases List.prefix_cons_iff.1 hfront with rfl | ⟨front, rfl, hrest⟩
      · exact hdir
      · exact h.directories front hrest
    · obtain ⟨front, rfl, hrest⟩ := (List.prefix_cons_iff.1 hfront).resolve_left hne
      rcases front with _ | ⟨n, front⟩
      · exact hunmarked
      · exact h.unmarked _ hrest (by simp)

/-- A file right below. -/
theorem isData_nil : r.IsData layout l dir [] name ↔ l.isDirectory dir = true ∧ IsSegment name ∧
    l.isFile (dir ++ "/" ++ name) = true ∧ layout.isUnitFile name = false := by
  constructor
  · exact fun h => ⟨h.directories [] List.nil_prefix, h.proper name (by simp), h.file, h.data⟩
  · rintro ⟨hdir, hname, hfile, hdata⟩
    refine ⟨by simpa using hname, hfile, fun front hfront => ?_, fun front hfront hne => ?_, hdata⟩
    · rw [List.prefix_nil.1 hfront]
      exact hdir
    · exact absurd (List.prefix_nil.1 hfront) hne

/-- **The walk finds the data files** down to its depth. -/
theorem mem_dataFiles {depth : Nat} : path ∈ r.dataFiles layout l depth dir ↔
    ∃ names name, r.IsData layout l dir names name ∧ names.length < depth ∧ path = descend dir (names ++ [name]) := by
  induction depth generalizing dir with
  | zero => simp [dataFiles]
  | succ depth ih =>
    unfold dataFiles
    rw [List.mem_flatMap]
    constructor
    · -- A child is walked down if it is a directory that is no package, and is taken if it is a data file.
      rintro ⟨child, hchild, hpath⟩
      obtain ⟨hdir, hsegment, hkind⟩ := Layer.mem_children_iff.1 hchild
      dsimp only at hpath
      split at hpath
      · next hdirectory =>
        split at hpath
        · cases hpath
        · next hunmarked =>
          obtain ⟨names, name, hdata, hlength, rfl⟩ := ih.1 hpath
          exact ⟨child :: names, name, isData_cons.2 ⟨hdir, hsegment, hdirectory, by simpa using hunmarked, hdata⟩,
            by simpa using hlength, rfl⟩
      · next hdirectory =>
        split at hpath
        · cases hpath
        · next hunit =>
          cases List.mem_singleton.1 hpath
          exact ⟨[], child, isData_nil.2 ⟨hdir, hsegment, hkind.resolve_left hdirectory, by simpa using hunit⟩,
            Nat.succ_pos _, rfl⟩
    · rintro ⟨names, name, hdata, hlength, rfl⟩
      rcases names with _ | ⟨child, names⟩
      · obtain ⟨hdir, hsegment, hfile, hunit⟩ := isData_nil.1 hdata
        -- A file is no directory, so the walk does not go down there.
        have hdirectory : l.isDirectory (dir ++ "/" ++ name) ≠ true := by
          intro hdirectory
          rw [Layer.isFile_eq_false_of_isDirectory (normalize_slash_ne dir hsegment) hdirectory] at hfile
          cases hfile
        refine ⟨name, Layer.mem_children_iff.2 ⟨hdir, hsegment, .inr hfile⟩, ?_⟩
        dsimp only
        rw [if_neg hdirectory, if_neg (by simp [hunit])]
        exact List.mem_singleton.2 rfl
      · obtain ⟨hdir, hsegment, hdirectory, hunmarked, hdata⟩ := isData_cons.1 hdata
        refine ⟨child, Layer.mem_children_iff.2 ⟨hdir, hsegment, .inl hdirectory⟩, ?_⟩
        dsimp only
        rw [if_pos hdirectory, if_neg (by simp [hunmarked])]
        exact ih.2 ⟨names, name, hdata, by simpa using hlength, rfl⟩

/-- **No way to a data file is longer than the number of entries**: the directories on it are different entries. -/
theorem IsData.length_le (h : r.IsData layout l dir names name) : names.length ≤ l.catalog.size := by
  have hproper : ∀ k, ∀ n ∈ names.take k, IsSegment n := fun k n hn =>
    h.proper n (List.mem_append_left _ (List.mem_of_mem_take hn))
  let ways := (List.range names.length).map fun k => normalize (descend dir (names.take (k + 1)))
  have hnodup : ways.Nodup := by
    refine List.Nodup.map_on (fun k hk k' hk' heq => ?_) List.nodup_range
    have hsegments := congrArg (fun p => (segments p).length) heq
    simp only [segments_normalize, segments_descend (hproper _), List.length_append, List.length_take] at hsegments
    have hlt := List.mem_range.1 hk
    have hlt' := List.mem_range.1 hk'
    omega
  have hsubset : ways ⊆ l.catalog.entries.map (·.1) := by
    intro p hp
    obtain ⟨k, hk, rfl⟩ := List.mem_map.1 hp
    have hne : names.take (k + 1) ≠ [] := by
      rw [List.mem_range] at hk
      intro hnil
      have hlength := congrArg List.length hnil
      simp only [List.length_take, List.length_nil] at hlength
      omega
    have hsome := (Layer.isSome_get?_iff (normalize_descend_ne _ (hproper _) hne)).2
      (.inl (h.directories _ (List.take_prefix (k + 1) names)))
    exact Table.contains_iff.1 hsome
  have hlength := (hnodup.subperm hsubset).length_le
  simpa [ways, Catalog.size] using hlength

/-- **The data files of a package** are all those below it. -/
theorem mem_packageData : path ∈ r.packageData layout l package ↔
    ∃ names name, r.IsData layout l package names name ∧ path = descend package (names ++ [name]) := by
  unfold packageData
  constructor
  · intro h
    split at h
    · obtain ⟨names, name, hdata, -, hpath⟩ := mem_dataFiles.1 h
      exact ⟨names, name, hdata, hpath⟩
    · cases h
  · rintro ⟨names, name, hdata, hpath⟩
    have hdirectory : l.isDirectory package = true := hdata.directories [] List.nil_prefix
    rw [if_pos hdirectory]
    exact mem_dataFiles.2 ⟨names, name, hdata, Nat.lt_succ_of_le hdata.length_le, hpath⟩

/-- The walk finds no file twice: what it finds through different children has different segments. -/
theorem nodup_dataFiles {depth : Nat} (dir : String) : (r.dataFiles layout l depth dir).Nodup := by
  induction depth generalizing dir with
  | zero => exact List.nodup_nil
  | succ depth ih =>
    -- All that is found through a child has the child as its next segment.
    have hbelow : ∀ child ∈ (l.catalog.children? dir).getD [], ∀ path ∈ (
        if l.isDirectory (dir ++ "/" ++ child) then
          if r.hasMarker layout (dir ++ "/" ++ child) then []
          else r.dataFiles layout l depth (dir ++ "/" ++ child)
        else if layout.isUnitFile child then [] else [dir ++ "/" ++ child]),
        ∃ more, segments path = segments dir ++ child :: more := by
      intro child hchild path hpath
      have hsegments := segments_slash dir (Layer.mem_children_iff.1 hchild).2.1
      split at hpath
      · split at hpath
        · cases hpath
        · obtain ⟨names, name, hdata, -, rfl⟩ := mem_dataFiles.1 hpath
          exact ⟨names ++ [name], by rw [segments_descend hdata.proper, hsegments]; simp⟩
      · split at hpath
        · cases hpath
        · cases List.mem_singleton.1 hpath
          exact ⟨[], hsegments⟩
    unfold dataFiles
    refine List.nodup_flatMap.2 ⟨fun child hchild => ?_, ?_⟩
    · dsimp only
      split
      · split
        · exact List.nodup_nil
        · exact ih _
      · split
        · exact List.nodup_nil
        · exact List.nodup_singleton _
    · refine (l.nodup_children dir).imp_of_mem fun {child child'} hchild hchild' hne => ?_
      rintro path hpath hpath'
      obtain ⟨more, hmore⟩ := hbelow child hchild path hpath
      obtain ⟨more', hmore'⟩ := hbelow child' hchild' path hpath'
      rw [hmore, List.append_cancel_left_eq] at hmore'
      exact hne (List.cons.inj hmore').1

/-- No file of a package is listed twice. -/
theorem nodup_packageData : (r.packageData layout l package).Nodup := by
  unfold packageData
  split
  · exact nodup_dataFiles _
  · exact List.nodup_nil

/-! ## (3) What a package covers -/

/-- `r.Covers layout package i path`: at `path` the open layer at position `i` has a data file of the package. On
the way down from the package there are directories of the layer, and no layer has a marker file of any kind in them. -/
inductive Covers (r : Root) (layout : Layout) (package : String) : Nat → String → Prop where
  /-- A file that can be reached by names. -/
  | mk {i : Nat} {l : Layer} {names : List String} {name : String} (opened : (i, l) ∈ r.openLayers)
      (proper : ∀ n ∈ names ++ [name], IsSegment n) (file : l.isFile (descend package (names ++ [name])) = true)
      (directories : ∀ front, front <+: names → l.isDirectory (descend package front) = true)
      (unmarked : ∀ front, front <+: names → front ≠ [] → ∀ kind, ∀ suffix ∈ layout.suffixes kind,
        ∀ j l', (j, l') ∈ r.openLayers →
          l'.isFile (layout.pathFor (descend package front) .package suffix) = false)
      (data : layout.isUnitFile name = false) : Covers r layout package i (descend package (names ++ [name]))

/-- A directory is no package if no layer has a file for it under any suffix. -/
theorem hasMarker_eq_false : r.hasMarker layout dir = false ↔ ∀ kind, ∀ suffix ∈ layout.suffixes kind,
    ∀ j l', (j, l') ∈ r.openLayers → l'.isFile (layout.pathFor dir .package suffix) = false := by
  have hpath : ∀ suffix, layout.pathFor dir .package suffix = dir ++ "/" ++ (layout.packageMarker ++ suffix) := by
    intro suffix
    rw [Layout.pathFor, String.append_assoc]
  simp only [hpath]
  unfold hasMarker
  rw [Bool.eq_false_iff, ne_eq, List.any_eq_true, not_exists]
  constructor
  · intro h kind suffix hsuffix j l' hl'
    by_contra hfile
    refine h (j, l') ⟨hl', List.any_eq_true.2 ⟨layout.packageMarker ++ suffix, ?_, by simpa using hfile⟩⟩
    exact List.mem_flatMap.2 ⟨kind, by cases kind <;> simp [Kind.all], List.mem_map.2 ⟨suffix, hsuffix, rfl⟩⟩
  · rintro h ⟨j, l'⟩ ⟨hl', hany⟩
    obtain ⟨marker, hmarker, hfile⟩ := List.any_eq_true.1 hany
    obtain ⟨kind, -, hmarker⟩ := List.mem_flatMap.1 hmarker
    obtain ⟨suffix, hsuffix, rfl⟩ := List.mem_map.1 hmarker
    rw [h kind suffix hsuffix j l' hl'] at hfile
    cases hfile

/-- The data files of a package with the positions of their layers, in the order in which they are unpacked. -/
def packageJobs (r : Root) (layout : Layout) (package : String) : List (Nat × String) :=
  r.openLayers.flatMap fun l => (r.packageData layout l.2 package).map fun path => (l.1, path)

/-- **The files that are unpacked are those that the package covers.** -/
theorem mem_packageJobs : (i, path) ∈ r.packageJobs layout package ↔ r.Covers layout package i path := by
  unfold packageJobs
  rw [List.mem_flatMap]
  constructor
  · rintro ⟨⟨i, l⟩, hl, hjob⟩
    obtain ⟨path, hpath, heq⟩ := List.mem_map.1 hjob
    cases heq
    obtain ⟨names, name, h, rfl⟩ := mem_packageData.1 hpath
    exact .mk hl h.proper h.file h.directories
      (fun front hfront hne => hasMarker_eq_false.1 (h.unmarked front hfront hne)) h.data
  · rintro ⟨hl, hproper, hfile, hdirectories, hunmarked, hdata⟩
    refine ⟨_, hl, List.mem_map.2 ⟨_, mem_packageData.2 ⟨_, _, ⟨hproper, hfile, hdirectories, ?_, hdata⟩, rfl⟩, rfl⟩⟩
    exact fun front hfront hne => hasMarker_eq_false.2 (hunmarked front hfront hne)

/-- **Each of them is unpacked once.** -/
theorem nodup_packageJobs (r : Root) (layout : Layout) (package : String) : (r.packageJobs layout package).Nodup := by
  refine List.nodup_flatMap.2 ⟨fun l _ => nodup_packageData.map fun _ _ heq => (Prod.mk.inj heq).2, ?_⟩
  refine r.pairwise_openLayers.imp fun {l l'} hlt => ?_
  rintro job hjob hjob'
  obtain ⟨path, -, rfl⟩ := List.mem_map.1 hjob
  obtain ⟨path', -, heq⟩ := List.mem_map.1 hjob'
  exact absurd (Prod.mk.inj heq).1.symm (Nat.ne_of_lt hlt)

/-- The layers come in their order. -/
theorem pairwise_packageJobs (r : Root) (layout : Layout) (package : String) :
    (r.packageJobs layout package).Pairwise fun a b => a.1 ≤ b.1 := by
  refine List.pairwise_flatMap.2 ⟨fun l _ => ?_, ?_⟩
  · exact List.pairwise_map.2 (List.pairwise_of_forall fun _ _ => Nat.le_refl l.1)
  · refine r.pairwise_openLayers.imp fun {l l'} hlt job hjob job' hjob' => ?_
    obtain ⟨path, -, rfl⟩ := List.mem_map.1 hjob
    obtain ⟨path', -, rfl⟩ := List.mem_map.1 hjob'
    exact Nat.le_of_lt hlt

/-- A package inside of another one, whose marker is in another layer than the data below it. -/
def nestedRoot : Root :=
  ⟨"/x", [
    .opened (.ofFiles "a" 1 [("pkg/__init__.py", .empty), ("pkg/in/d.txt", "1".toUTF8), ("pkg/t/u/d.txt", "2".toUTF8)])
      none,
    .opened (.ofFiles "b" 1 [("pkg/in/__init__.pyc", .empty), ("pkg/d.txt", "3".toUTF8)]) none], [], 1⟩

example : nestedRoot.packageJobs .standard "pkg" = [(0, "pkg/t/u/d.txt"), (1, "pkg/d.txt")] := by decide +kernel

/-! ## (4) Making them one after the other -/

/-- `r.Makes jobs s out s'`: the artifacts of files, given by layer and path, are made one after the other until one of
them fails. -/
inductive Makes (r : Root) : List (Nat × String) → RootState → Except ImportFailure Unit → RootState → Prop where
  /-- All were made. -/
  | all {s : RootState} : Makes r [] s (.ok ()) s
  /-- One is made, and then the others. -/
  | next {i : Nat} {path dest : String} {jobs : List (Nat × String)} {s s₁ s' : RootState}
      {out : Except ImportFailure Unit} (made : (r.makeArtifact i path).outcome s = (.ok dest, s₁))
      (rest : Makes r jobs s₁ out s') : Makes r ((i, path) :: jobs) s out s'
  /-- One fails, and no other is made. -/
  | stops {i : Nat} {path : String} {jobs : List (Nat × String)} {s s' : RootState} {e : ImportFailure}
      (failed : (r.makeArtifact i path).outcome s = (.error e, s')) : Makes r ((i, path) :: jobs) s (.error e) s'

/-- An artifact of an open layer is made from that layer. -/
theorem outcome_makeArtifact (h : (i, l) ∈ r.openLayers) (path : String) (s : RootState) :
    (r.makeArtifact i path).outcome s = (RootWork.ofWork (Extraction.makeArtifact r.dir l path)).outcome s := by
  unfold makeArtifact
  rw [layerAt_eq_ok.2 h]
  exact outcome_bind_ok (outcome_ofExcept _ _) _

/-- An artifact that is made, or cannot be made, has no part in what is remembered. -/
theorem extracted_makeArtifact (r : Root) (i : Nat) (path : String) (s : RootState) :
    ((r.makeArtifact i path).outcome s).2.extracted = s.extracted := by
  unfold makeArtifact
  rw [outcome_bind, outcome_ofExcept]
  cases r.layerAt i <;> rfl

/-- Making files remembers no package. -/
theorem Makes.extracted {jobs : List (Nat × String)} {s s' : RootState} {out : Except ImportFailure Unit}
    (h : r.Makes jobs s out s') : s'.extracted = s.extracted := by
  induction h with
  | all => rfl
  | @next i path _ _ s _ _ _ made _ ih =>
    rw [ih]
    simpa [made] using extracted_makeArtifact r i path s
  | @stops i path _ s _ _ failed => simpa [failed] using extracted_makeArtifact r i path s

/-- A loop that makes artifacts makes them one after the other. -/
theorem makes_forIn {f : Layer × String → PUnit → RootWork (ForInStep PUnit)}
    (hf : ∀ l path s, (f (l, path) ⟨⟩).outcome s =
      match (RootWork.ofWork (Extraction.makeArtifact r.dir l path)).outcome s with
      | (.ok _, s') => (.ok (.yield ⟨⟩), s')
      | (.error e, s') => (.error e, s'))
    {jobs : List ((Nat × Layer) × String)} (hjobs : ∀ j ∈ jobs, j.1 ∈ r.openLayers) (s : RootState) :
    (ForIn.forIn (jobs.map fun j => (j.1.2, j.2)) PUnit.unit f).Yields s
      fun out s' => r.Makes (jobs.map fun j => (j.1.1, j.2)) s out s' := by
  induction jobs generalizing s with
  | nil => exact .all
  | cons j jobs ih =>
    obtain ⟨⟨i, l⟩, path⟩ := j
    have hmake := outcome_makeArtifact (hjobs _ List.mem_cons_self) path s
    rw [Yields, List.map_cons, List.map_cons, List.forIn_cons, outcome_bind, hf l path s, ← hmake]
    rcases hout : (r.makeArtifact i path).outcome s with ⟨e | dest, s₁⟩
    · exact .stops hout
    · exact .next hout (ih (fun j hj => hjobs j (List.mem_cons_of_mem _ hj)) s₁)

/-- **Unpacking a package that is remembered** does nothing. -/
theorem outcome_unpackPackage_of_mem {s : RootState} (h : package ∈ s.extracted) :
    (r.unpackPackage layout package).outcome s = (.ok 0, s) := by
  unfold unpackPackage
  rw [outcome_bind_ok (outcome_get s), if_pos (List.contains_iff_mem.2 h)]
  rfl

/-- **Unpacking a package that is not remembered** makes its files one after the other, and remembers it if all of them
were made. -/
theorem exists_makes_of_unpackPackage {s : RootState} (h : package ∉ s.extracted) :
    ∃ out s', r.Makes (r.packageJobs layout package) s out s' ∧
      (r.unpackPackage layout package).outcome s = match out with
        | .ok () => (.ok (r.packageJobs layout package).length, { s' with extracted := package :: s'.extracted })
        | .error e => (.error e, s') := by
  -- The files with both the layers and their positions.
  let jobs := r.openLayers.flatMap fun l => (r.packageData layout l.2 package).map fun path => (l, path)
  have hopen : ∀ j ∈ jobs, j.1 ∈ r.openLayers := by
    intro j hj
    obtain ⟨l, hl, hj⟩ := List.mem_flatMap.1 hj
    obtain ⟨path, -, rfl⟩ := List.mem_map.1 hj
    exact hl
  have hfiles : (r.openLayers.flatMap fun l => (r.packageData layout l.2 package).map fun path => (l.2, path))
      = jobs.map fun j => (j.1.2, j.2) := by
    simp only [jobs, List.map_flatMap, List.map_map, Function.comp_def]
  have hpackage : r.packageJobs layout package = jobs.map fun j => (j.1.1, j.2) := by
    simp only [packageJobs, jobs, List.map_flatMap, List.map_map, Function.comp_def]
  have hyields : (r.unpackPackage layout package).Yields s fun res s₁ =>
      ∃ out s', r.Makes (r.packageJobs layout package) s out s' ∧
        (res, s₁) = match out with
          | .ok () => (.ok (r.packageJobs layout package).length, { s' with extracted := package :: s'.extracted })
          | .error e => (.error e, s') := by
    unfold unpackPackage
    rw [yields_get_bind, if_neg (by simpa using h), hfiles, hpackage]
    refine Yields.bind (makes_forIn (fun l path s => ?_) hopen s) (fun u s' hmakes => ?_) fun e s' hmakes => ?_
    · rw [outcome_bind]
      rcases (RootWork.ofWork (Extraction.makeArtifact r.dir l path)).outcome s with ⟨e | dest, s₁⟩ <;> rfl
    · exact ⟨_, s', hmakes, by rw [List.length_map, List.length_map]; rfl⟩
    · exact ⟨_, s', hmakes, rfl⟩
  exact hyields

/-! ## (5) How long a package is remembered -/

/-- What is done with a root. -/
inductive Operation where
  /-- Make an artifact. -/
  | makeArtifact (layer : Nat) (path : String)
  /-- Unpack a package. -/
  | unpackPackage (layout : Layout) (package : String)
  /-- Make the artifact of a library. -/
  | locateLibrary (dirs : List String) (name : String)
  /-- Check the build. -/
  | checkBuild (store : RecordStore)

/-- Do it. -/
def Operation.perform (r : Root) : Operation → RootWork Unit
  | .makeArtifact i path => do
    let _ ← r.makeArtifact i path
  | .unpackPackage layout package => do
    let _ ← r.unpackPackage layout package
  | .locateLibrary dirs name => do
    let _ ← RootWork.ofWork (r.locateLibrary dirs name)
  | .checkBuild store => do
    let _ ← r.checkBuild store

/-- `r.Clears s op`: a check of the build finds another one, and removes all that was extracted. -/
inductive Clears (r : Root) (s : RootState) : Operation → Prop where
  /-- What it found under the lock. -/
  | mk {store : RecordStore} {ticket : Nat} {w w' : Workspace} {record : Option BuildRecord}
      (locked : (Lock.acquire r.dir r.lockTimeout).outcome s.workspace = (.ok ticket, w))
      (answer : store.answer w r.dir = .ok record) (other : compareBuild record r.tokens ≠ .unchanged)
      (removed : (Extraction.removeAll r.dir).outcome w = (.ok (), w')) : Clears r s (.checkBuild store)

variable {p : String} {s s' : RootState}

/-- A check that does not clear what was extracted remembers it. -/
theorem extracted_checkBuild {store : RecordStore} (h : ¬ r.Clears s (.checkBuild store)) :
    ((r.checkBuild store).outcome s).2.extracted = s.extracted := by
  rcases hout : (r.checkBuild store).outcome s with ⟨out, s'⟩
  cases course_of_outcome hout with
  | locking | asking | swept | removing => rfl
  | recording hacquire hget hother hremove | recorded hacquire hget hother hremove =>
    exact absurd (.mk hacquire (RecordStore.answer_of_get hget) (by simp [hother]) hremove) h

/-- What is done to the workspace alone forgets no package. -/
theorem preserves_mem_extracted {α : Type} (a : Work ImportFailure α) :
    (RootWork.ofWork a).Preserves fun s => p ∈ s.extracted := fun _ hs => hs

/-- **No operation forgets a package**, except a check that clears what was extracted. -/
theorem mem_extracted_perform {op : Operation} (hp : p ∈ s.extracted) (h : ¬ r.Clears s op) :
    p ∈ ((op.perform r).outcome s).2.extracted := by
  have hmake : ∀ l path, (RootWork.ofWork (Extraction.makeArtifact r.dir l path)).Preserves
      fun s => p ∈ s.extracted := fun l path => preserves_mem_extracted _
  cases op with
  | makeArtifact i path =>
    refine Preserves.bind (I := fun s => p ∈ s.extracted) ?_ (fun _ => preserves_pure _) s hp
    unfold makeArtifact
    exact Preserves.ofExcept_bind fun l _ => hmake l path
  | unpackPackage layout package =>
    refine Preserves.bind (I := fun s => p ∈ s.extracted) ?_ (fun _ => preserves_pure _) s hp
    unfold unpackPackage
    refine preserves_get.bind fun s => ?_
    split
    · exact preserves_pure _
    · refine (Preserves.forIn fun f _ => (hmake f.1 f.2).bind fun _ => preserves_pure _).bind fun _ => ?_
      exact Preserves.bind (fun s hs => List.mem_cons_of_mem package hs) fun _ => preserves_pure _
  | locateLibrary dirs name => exact Preserves.bind (preserves_mem_extracted _) (fun _ => preserves_pure _) s hp
  | checkBuild store =>
    have hcheck : (r.checkBuild store).Yields s fun _ s' => p ∈ s'.extracted := by
      rw [Yields, extracted_checkBuild h]
      exact hp
    exact Yields.bind (Q := fun _ s' => p ∈ s'.extracted) hcheck (fun _ _ hs => yields_pure.2 hs) fun _ _ hs => hs

/-- `r.Unchallenged s s'`: the root got from `s` to `s'`, and no check has cleared what was extracted. Others may have
changed the workspace in between. -/
inductive Unchallenged (r : Root) (s : RootState) : RootState → Prop where
  /-- Nothing was done. -/
  | start : Unchallenged r s s
  /-- Something was done, and it has not cleared what was extracted. -/
  | operation {s' : RootState} (past : Unchallenged r s s') (op : Operation) (keeps : ¬ r.Clears s' op) :
      Unchallenged r s ((op.perform r).outcome s').2
  /-- Others have changed the workspace. -/
  | others {s' : RootState} (past : Unchallenged r s s') (w : Workspace) :
      Unchallenged r s { s' with workspace := w }

/-- A package is remembered as long as no check has cleared what was extracted. -/
theorem Unchallenged.mem_extracted (h : r.Unchallenged s s') (hp : p ∈ s.extracted) : p ∈ s'.extracted := by
  induction h with
  | start => exact hp
  | operation _ op keeps ih => exact mem_extracted_perform ih keeps
  | others _ w ih => exact ih

/-- **What unpacking a package does, and for how long it need not be done again.** While the package is not remembered,
the files that it covers are made, layer by layer and each of them once, and the package is remembered if none of them
failed. Then nothing is done any more, whatever else is done with the root, until a check has cleared what was
extracted. -/
theorem unpackPackage_once (r : Root) (layout : Layout) (package : String) :
    (∃ jobs : List (Nat × String), jobs.Nodup ∧ jobs.Pairwise (fun a b => a.1 ≤ b.1) ∧
      (∀ i path, (i, path) ∈ jobs ↔ r.Covers layout package i path) ∧
      ∀ s, package ∉ s.extracted → ∃ out s', r.Makes jobs s out s' ∧ s'.extracted = s.extracted ∧
        (r.unpackPackage layout package).outcome s = match out with
          | .ok () => (.ok jobs.length, { s' with extracted := package :: s.extracted })
          | .error e => (.error e, s')) ∧
    (∀ s s', package ∈ s.extracted → r.Unchallenged s s' →
      (r.unpackPackage layout package).outcome s' = (.ok 0, s')) ∧
    ∀ store changed s s', (r.checkBuild store).outcome s = (.ok (.invalidated changed), s') → s'.extracted = [] := by
  refine ⟨⟨r.packageJobs layout package, nodup_packageJobs r layout package, pairwise_packageJobs r layout package,
    fun i path => mem_packageJobs, fun s hnew => ?_⟩, fun s s' hpackage hpast => ?_,
    fun store changed s s' hcheck => ?_⟩
  · obtain ⟨out, s', hmakes, hout⟩ := exists_makes_of_unpackPackage hnew
    refine ⟨out, s', hmakes, hmakes.extracted, ?_⟩
    rw [hout, hmakes.extracted]
  · exact outcome_unpackPackage_of_mem (hpast.mem_extracted hpackage)
  · obtain ⟨-, -, -, -, -, -, -, -, ⟨hunchanged, -⟩ | ⟨-, hextracted, -⟩⟩ := exists_of_checkBuild hcheck
    · cases hunchanged
    · exact hextracted

/-- The two files that the package covers are made, and then none. -/
theorem nestedRoot_unpacked : ∃ s',
    (nestedRoot.unpackPackage .standard "pkg").outcome ⟨.ofTree .empty, []⟩ = (.ok 2, s') ∧
      (nestedRoot.unpackPackage .standard "pkg").outcome s' = (.ok 0, s') := by
  have hfirst : ((nestedRoot.unpackPackage .standard "pkg").outcome ⟨.ofTree .empty, []⟩).1 = .ok 2 := by
    decide +kernel
  obtain ⟨⟨jobs, -, -, -, hmakes⟩, hagain, -⟩ := unpackPackage_once nestedRoot .standard "pkg"
  obtain ⟨out, s', -, -, hout⟩ := hmakes ⟨.ofTree .empty, []⟩ (by simp)
  rw [hout] at hfirst ⊢
  rcases out with e | ⟨⟩
  · cases hfirst
  · exact ⟨_, Prod.ext hfirst rfl, hagain _ _ List.mem_cons_self .start⟩

end Root

end LayeredBundles
