import LayeredBundles.Proofs.Entries
import LayeredBundles.Proofs.Precedence
import LayeredBundles.Proofs.UnitFiles

/-! # What is listed and what resolves

Listing takes the names right below a directory apart: a directory with a marker is a package, and a file is a module
by its stem. Resolving goes the other way and puts suffixes behind a dotted name. Here both are told as what a root
shows and what it holds, and compared name by name.

* **`Root.HasPackage`**, **`Root.HasModule`** — what the layers of a root have under a name, a package or a module;
* **`Importer.find?_foldl_addListed`** — what the units of all layers come to, whatever their order;
* **`Root.Shows`** — a layer of the root has something below a directory that is listed under a name;
* **`Importer.mem_subunits`** — what is listed is what some root shows;
* **`Root.Shows.exists_holds`** — whatever is shown is held;
* **`Root.Holds.shows`** — what is held under a single segment is shown, if no file stands above an entry and no suffix
  ends in an earlier one;
* **`Importer.listing_agrees_iff`** — when listing and resolving agree on a name. -/

namespace LayeredBundles

/-! ## (1) Names right below a dotted name -/

namespace UnitName

variable {parent name : String}

/-- The dotted name right below another one; below none it is the name alone. -/
def below (parent name : String) : String := if parent = "" then name else parent ++ "." ++ name

/-- A name of one segment that can be looked up. -/
def IsSingle (name : String) : Prop := isSegment name = true ∧ '.' ∉ name.toList

instance (name : String) : Decidable (IsSingle name) := inferInstanceAs (Decidable (_ ∧ _))

/-- A single part of a name is a segment of a path. -/
theorem IsSingle.isSegment (h : IsSingle name) : ArchivePath.IsSegment name := by
  obtain ⟨hne, hslash, -⟩ := isSegment_iff.1 h.1
  refine ⟨hne, ?_, hslash⟩
  rintro rfl
  exact h.2 (by decide)

/-- A name below another has the segments of that one and its own. -/
theorem segments_below (hparent : parent ≠ "") (hname : '.' ∉ name.toList) :
    segments (below parent name) = segments parent ++ [name] := by
  rw [below, if_neg hparent, segments, segments, ← Text.split_of_not_mem hname]
  simp [Text.split, Text.splitChars_append]

/-- A name right below one that can be looked up can itself be looked up if it is a segment. -/
theorem isValid_below (hparent : parent = "" ∨ isValid parent = true) (hname : '.' ∉ name.toList) :
    isValid (below parent name) = isSegment name := by
  by_cases hroot : parent = ""
  · rw [below, if_pos hroot, isValid, segments, Text.split_of_not_mem hname]
    simp
  · rw [isValid, segments_below hroot hname, List.all_append, ← isValid, hparent.resolve_left hroot]
    simp

/-- The path of a valid name is not empty. -/
theorem path_ne_empty (h : isValid name = true) : path name ≠ "" := by
  intro hempty
  have hsegments := segments_path h
  rw [hempty] at hsegments
  exact (proper_of_isValid h "" (by rw [← hsegments]; decide)).1 rfl

/-- **The path of a name right below another one** is right below the path of that one. -/
theorem path_below (hparent : parent = "" ∨ isValid parent = true) (hname : IsSingle name) :
    path (below parent name) = ArchivePath.child (path parent) name := by
  by_cases hroot : parent = ""
  · subst hroot
    rw [below, if_pos rfl, path, segments, Text.split_of_not_mem hname.2]
    simp [Text.join, Text.joinChars, ArchivePath.child, path, segments, Text.split, Text.splitChars]
  · have hvalid := hparent.resolve_left hroot
    rw [ArchivePath.child, if_neg (path_ne_empty hvalid), path, segments_below hroot hname.2, ← segments_path hvalid,
      ← Text.split_of_not_mem hname.isSegment.2.2, DiskPath.segments, ← Text.split_append_slash, Text.join_split]

/-- No slashes stand around the path of a name. -/
theorem trimmed_path (h : name = "" ∨ isValid name = true) :
    Text.dropStartWhile (· = '/') (DiskPath.withoutSlashes (path name)) = path name := by
  rcases h with rfl | hvalid
  · decide
  have hproper : "" ∉ DiskPath.segments (path name) := fun hmem =>
    (proper_of_isValid hvalid "" (segments_path hvalid ▸ hmem)).1 rfl
  generalize path name = p at hproper
  have hend : DiskPath.withoutSlashes p = p := by
    obtain ⟨k, hk⟩ := DiskPath.exists_withoutSlashes p
    cases k with
    | zero => simpa using hk.symm
    | succ k =>
      rw [hk, DiskPath.segments_append_slashes] at hproper
      simp [List.replicate_succ] at hproper
  rw [hend]
  apply String.toList_injective
  rw [Text.dropStartWhile, String.toList_ofList]
  rcases hp : p.toList with _ | ⟨c, cs⟩
  · rfl
  · refine List.dropWhile_cons_of_neg fun hc => hproper ?_
    have hslash : c = '/' := by simpa using hc
    simp [DiskPath.segments, Text.split, hp, hslash, Text.splitChars]

end UnitName

/-! ## (2) What a root shows -/

namespace Layer

variable {l : Layer} {dir path child : String} {e : Entry}

/-- Below the root, the entry of a path tells whether it is a directory. -/
theorem isDirectory_eq (hentry : l.entry path = .ok e) (hbelow : ArchivePath.segments path ≠ []) :
    l.isDirectory path = e.isDir := by
  have hne : ArchivePath.normalize path ≠ "" := by
    intro hroot
    rw [← ArchivePath.segments_normalize, hroot, ArchivePath.segments_empty] at hbelow
    exact hbelow rfl
  rw [isDirectory, Catalog.isDirectory, entry_eq_ok.1 hentry]
  simp [hne]

/-- A directory other than the root of a layer has an entry. -/
theorem exists_entry_of_isDirectory (h : l.isDirectory path = true) (hbelow : ArchivePath.segments path ≠ []) :
    ∃ e, l.entry path = .ok e := by
  rcases hget : l.catalog.get? path with _ | e
  · rw [isDirectory, Catalog.isDirectory, hget] at h
    have hroot : ArchivePath.normalize path = "" := by simpa using h
    rw [← ArchivePath.segments_normalize, hroot, ArchivePath.segments_empty] at hbelow
    exact absurd rfl hbelow
  · exact ⟨e, entry_eq_ok.2 hget⟩

/-- **The names right below a path**: there are some only where it is a directory, and under each stands an entry. -/
theorem mem_childrenOf : child ∈ (l.childrenOf dir).toOption.getD [] ↔
    l.isDirectory dir = true ∧ ArchivePath.IsSegment child ∧ ∃ e, l.entry (ArchivePath.child dir child) = .ok e := by
  have hentry : (∃ e, l.entry (ArchivePath.child dir child) = .ok e) ↔
      (l.catalog.get? (dir ++ "/" ++ child)).isSome := by
    have hnormal :
        ArchivePath.normalize (ArchivePath.child dir child) = ArchivePath.normalize (dir ++ "/" ++ child) := by
      rw [ArchivePath.normalize, ArchivePath.segments_child, ← DiskPath.steps_eq_archive, ← DiskPath.steps_eq_archive,
        ← DiskPath.steps_append_slash]
      rfl
    simp only [entry_eq_ok, Catalog.get?, hnormal, Option.isSome_iff_exists]
  have hdir : l.isDirectory dir = (l.catalog.children? dir).isSome := by
    rw [isDirectory, l.catalog_eq, Catalog.isSome_children?]
  rw [hentry, childrenOf, hdir]
  rcases hchildren : l.catalog.children? dir with _ | names
  · cases l.isFile dir <;> simp [Except.toOption]
  · rw [l.catalog_eq] at hchildren ⊢
    simpa [Except.toOption] using Catalog.mem_children? hchildren

end Layer

namespace Root

/-- The layer is open in the root, at whatever position. -/
def Opens (r : Root) (l : Layer) : Prop := ∃ token, .opened l token ∈ r.slots

/-- `r.HasPackage layout dir n`: a layer has the directory `n` right below `dir`, and some layer, be it another one, has
a marker file in there. -/
structure HasPackage (r : Root) (layout : Layout) (dir n : String) : Prop where
  /-- The directory. -/
  directory : ∃ l, r.Opens l ∧ l.isDirectory dir = true ∧ ArchivePath.IsSegment n ∧
    l.isDirectory (ArchivePath.child dir n) = true
  /-- The marker file. -/
  marker : ∃ l, r.Opens l ∧ ∃ marker ∈ layout.markers, l.isFile (ArchivePath.child dir n ++ "/" ++ marker) = true

/-- `r.HasModule layout dir n`: a layer has a file right below `dir` that has the stem `n`, neither the marker nor
dotted. -/
structure HasModule (r : Root) (layout : Layout) (dir n : String) : Prop where
  /-- The file. -/
  file : ∃ l, r.Opens l ∧ l.isDirectory dir = true ∧ ∃ child, ArchivePath.IsSegment child ∧
    l.isFile (ArchivePath.child dir child) = true ∧ ∃ kind, layout.kindAndStem? child = some (kind, n)
  /-- It is no marker. -/
  name : n ≠ layout.packageMarker
  /-- Its stem is not dotted. -/
  point : '.' ∉ n.toList

variable {r : Root} {l : Layer} {layout : Layout} {dir n child : String}

/-- A root opens a layer at some position. -/
theorem opens_iff : r.Opens l ↔ ∃ i, (i, l) ∈ r.openLayers := by
  simp only [Opens, mem_openLayers]
  simp only [List.mem_iff_getElem?]
  exact exists_comm

/-- A directory has a marker if a layer of the root has one as a file in it. -/
theorem hasMarker_iff : r.hasMarker layout dir = true ↔
    ∃ l, r.Opens l ∧ ∃ marker ∈ layout.markers, l.isFile (dir ++ "/" ++ marker) = true := by
  simp only [hasMarker, List.any_eq_true, opens_iff]
  constructor
  · rintro ⟨⟨i, l⟩, hl, hmarker⟩
    exact ⟨l, ⟨i, hl⟩, hmarker⟩
  · rintro ⟨l, ⟨i, hl⟩, hmarker⟩
    exact ⟨(i, l), hl, hmarker⟩

/-- **A child is listed as a package** under its own name, being a directory with a marker. -/
theorem subunit?_package : Importer.subunit? layout r l dir child = some (n, true) ↔
    child = n ∧ l.isDirectory (ArchivePath.child dir n) = true ∧
      r.hasMarker layout (ArchivePath.child dir n) = true := by
  unfold Importer.subunit?
  dsimp only
  constructor
  · intro h
    split at h
    · next hdirectory =>
      split at h
      · next hmarker =>
        cases h
        exact ⟨rfl, hdirectory, hmarker⟩
      · cases h
    · split at h
      · split at h <;> cases h
      · cases h
  · rintro ⟨rfl, hdirectory, hmarker⟩
    rw [if_pos hdirectory, if_pos hmarker]

/-- **A child is listed as a module** under its stem, being no directory. -/
theorem subunit?_module : Importer.subunit? layout r l dir child = some (n, false) ↔
    l.isDirectory (ArchivePath.child dir child) = false ∧ (∃ kind, layout.kindAndStem? child = some (kind, n)) ∧
      n ≠ layout.packageMarker ∧ '.' ∉ n.toList := by
  unfold Importer.subunit?
  dsimp only
  constructor
  · intro h
    split at h
    · split at h <;> cases h
    · next hfile =>
      split at h
      · next kind stem hstem =>
        split at h
        · next hname =>
          cases h
          exact ⟨by simpa using hfile, ⟨kind, hstem⟩, by simpa [Text.hasChar] using hname⟩
        · cases h
      · cases h
  · rintro ⟨hfile, ⟨kind, hstem⟩, hname, hpoint⟩
    simp [hfile, hstem, hname, Text.hasChar, hpoint]

/-- **What a root lists below a directory**: a segment in it that has an entry in some layer, and is a subunit there. -/
theorem mem_unitsOf {u : String × Bool} : u ∈ Importer.unitsOf layout dir r ↔
    ∃ l, r.Opens l ∧ l.isDirectory dir = true ∧ ∃ child, ArchivePath.IsSegment child ∧
      (∃ e, l.entry (ArchivePath.child dir child) = .ok e) ∧ Importer.subunit? layout r l dir child = some u := by
  simp only [Importer.unitsOf, List.mem_flatMap, List.mem_filterMap, Layer.mem_childrenOf, opens_iff]
  constructor
  · rintro ⟨⟨i, l⟩, hl, child, ⟨habove, hsegment, hentry⟩, hunit⟩
    exact ⟨l, ⟨i, hl⟩, habove, child, hsegment, hentry, hunit⟩
  · rintro ⟨l, ⟨i, hl⟩, habove, child, hsegment, hentry, hunit⟩
    exact ⟨(i, l), hl, child, ⟨habove, hsegment, hentry⟩, hunit⟩

/-- A child is not the root of a layer. -/
theorem segments_child_ne_nil (hsegment : ArchivePath.IsSegment child) :
    ArchivePath.segments (ArchivePath.child dir child) ≠ [] := by
  rw [ArchivePath.segments_child, hsegment.segments]
  simp

/-- **What the layers of a root list as packages** are the packages it has. -/
theorem mem_unitsOf_package : (n, true) ∈ Importer.unitsOf layout dir r ↔ r.HasPackage layout dir n := by
  simp only [mem_unitsOf, subunit?_package]
  constructor
  · rintro ⟨l, hl, habove, _, hsegment, -, rfl, hdirectory, hmarker⟩
    exact ⟨⟨l, hl, habove, hsegment, hdirectory⟩, hasMarker_iff.1 hmarker⟩
  · rintro ⟨⟨l, hl, habove, hsegment, hdirectory⟩, hmarker⟩
    exact ⟨l, hl, habove, n, hsegment, Layer.exists_entry_of_isDirectory hdirectory (segments_child_ne_nil hsegment),
      rfl, hdirectory, hasMarker_iff.2 hmarker⟩

/-- **What the layers of a root list as modules** are the modules it has. -/
theorem mem_unitsOf_module : (n, false) ∈ Importer.unitsOf layout dir r ↔ r.HasModule layout dir n := by
  simp only [mem_unitsOf, subunit?_module]
  constructor
  · rintro ⟨l, hl, habove, child, hsegment, ⟨e, hentry⟩, hfile, hstem, hname, hpoint⟩
    rw [Layer.isDirectory_eq hentry (segments_child_ne_nil hsegment)] at hfile
    exact ⟨⟨l, hl, habove, child, hsegment, Layer.isFile_iff.2 ⟨e, hentry, hfile⟩, hstem⟩, hname, hpoint⟩
  · rintro ⟨⟨l, hl, habove, child, hsegment, hfile, hstem⟩, hname, hpoint⟩
    obtain ⟨e, hentry, hisfile⟩ := Layer.isFile_iff.1 hfile
    exact ⟨l, hl, habove, child, hsegment, ⟨e, hentry⟩,
      (Layer.isDirectory_eq hentry (segments_child_ne_nil hsegment)).trans hisfile, hstem, hname, hpoint⟩

end Root

/-- `r.Shows layout dir n`: something right below the directory is listed as the unit `n`. -/
inductive Root.Shows (r : Root) (layout : Layout) (dir n : String) : Prop where
  /-- A directory of that name in which some layer has a marker file. -/
  | package {i : Nat} {l : Layer} (layer : (i, l) ∈ r.openLayers) (above : l.isDirectory dir = true)
      (segment : ArchivePath.IsSegment n) (directory : l.isDirectory (ArchivePath.child dir n) = true)
      (marker : r.hasMarker layout (ArchivePath.child dir n) = true)
  /-- A file of which the name is the stem, and neither the marker nor dotted. -/
  | module {i : Nat} {l : Layer} {child : String} {kind : Kind} (layer : (i, l) ∈ r.openLayers)
      (above : l.isDirectory dir = true) (segment : ArchivePath.IsSegment child)
      (file : l.isFile (ArchivePath.child dir child) = true) (stem : layout.kindAndStem? child = some (kind, n))
      (name : n ≠ layout.packageMarker) (point : '.' ∉ n.toList)

namespace Root

variable {r : Root} {layout : Layout} {dir n : String}

/-- What a root shows is a package or a module of it. -/
theorem shows_iff : r.Shows layout dir n ↔ r.HasPackage layout dir n ∨ r.HasModule layout dir n := by
  constructor
  · rintro (⟨layer, above, segment, directory, marker⟩ | ⟨layer, above, segment, file, stem, name, point⟩)
    · exact .inl ⟨⟨_, opens_iff.2 ⟨_, layer⟩, above, segment, directory⟩, hasMarker_iff.1 marker⟩
    · exact .inr ⟨⟨_, opens_iff.2 ⟨_, layer⟩, above, _, segment, file, _, stem⟩, name, point⟩
  · rintro (⟨⟨l, hl, above, segment, directory⟩, marker⟩ |
      ⟨⟨l, hl, above, child, segment, file, kind, stem⟩, name, point⟩)
    · obtain ⟨i, layer⟩ := opens_iff.1 hl
      exact .package layer above segment directory (hasMarker_iff.2 marker)
    · obtain ⟨i, layer⟩ := opens_iff.1 hl
      exact .module layer above segment file stem name point

end Root

namespace Importer

variable {m : Importer} {n : String} {u : String × Bool} {us : List (String × Bool)} {found : Table String Bool}

/-- A package is added whatever was found, and a module if nothing was. -/
theorem find?_addListed : Table.find? (addListed found u) n =
    if u = (n, true) then some true
    else (Table.find? found n).or (if u = (n, false) then some false else none) := by
  obtain ⟨name, isPackage⟩ := u
  unfold addListed
  cases isPackage with
  | true =>
    rw [if_pos (by simp), Table.find?_insert]
    by_cases hn : n = name <;> simp [hn, eq_comm]
  | false =>
    cases hfound : Table.find? found name with
    | none =>
      rw [if_pos (by simp [Table.contains, hfound]), Table.find?_insert]
      by_cases hn : n = name
      · simp [hn, hfound]
      · simp [hn, eq_comm]
    | some b =>
      rw [if_neg (by simp [Table.contains, hfound])]
      by_cases hn : n = name
      · simp [hn, hfound]
      · simp [eq_comm, hn]

/-- **What units come to**, in whatever order they are added: a name is a package if one of them is, and else a module
if one of them is. -/
theorem find?_foldl_addListed : Table.find? (us.foldl addListed found) n =
    if (n, true) ∈ us then some true
    else (Table.find? found n).or (if (n, false) ∈ us then some false else none) := by
  induction us generalizing found with
  | nil => simp
  | cons u us ih =>
    rw [List.foldl_cons, ih, find?_addListed]
    simp only [List.mem_cons, @eq_comm _ _ u]
    -- Whether the first unit makes a package or a module of the name, and whether a later one does.
    by_cases hpackage : u = (n, true)
    · simp [hpackage]
    · by_cases hmodule : u = (n, false)
      · cases Table.find? found n <;> simp [hmodule]
      · simp [hpackage, hmodule]

/-- Where all layers are open, the units of all roots are put together. -/
theorem subunits_eq (hopen : ∀ r ∈ m.roots, r.requireOpen = .ok ()) (path : String) : m.subunits path = .ok
    (((m.roots.flatMap (unitsOf m.layout (Text.dropStartWhile (· = '/') (DiskPath.withoutSlashes path)))).foldl
      addListed []).map fun u => ⟨u.1, u.2⟩) := by
  have hroots : (m.roots.forM fun r => r.requireOpen) = .ok () := by
    generalize m.roots = roots at hopen
    induction roots with
    | nil => rfl
    | cons r roots ih =>
      change (r.requireOpen >>= fun _ => roots.forM fun r => r.requireOpen) = .ok ()
      rw [hopen r List.mem_cons_self]
      exact ih fun r hr => hopen r (List.mem_cons_of_mem _ hr)
  rw [subunits, hroots]
  rfl

/-- **What is listed** below a path is what some root shows, if all layers are open. -/
theorem mem_subunits (hopen : ∀ r ∈ m.roots, r.requireOpen = .ok ()) {path : String}
    (htrimmed : Text.dropStartWhile (· = '/') (DiskPath.withoutSlashes path) = path) :
    ∃ us, m.subunits path = .ok us ∧ ∀ n, n ∈ us.map (·.name) ↔ ∃ r ∈ m.roots, r.Shows m.layout path n := by
  refine ⟨_, subunits_eq hopen path, fun n => ?_⟩
  have hlisted : ∀ found : Table String Bool, n ∈ (found.map fun u => (⟨u.1, u.2⟩ : ListedUnit)).map (·.name) ↔
      Table.contains found n = true := by
    intro found
    rw [List.map_map, Table.contains_iff]
    rfl
  rw [htrimmed, hlisted, Table.contains, find?_foldl_addListed]
  simp only [Root.shows_iff, ← Root.mem_unitsOf_package, ← Root.mem_unitsOf_module, and_or_left, exists_or,
    ← List.mem_flatMap]
  split
  · simp_all
  · split <;> simp_all

end Importer

/-! ## (3) What is shown and what is held -/

/-- No suffix of a layout ends in another one that comes before it. -/
def Layout.Separates (layout : Layout) : Prop :=
  (Kind.all.flatMap layout.suffixes).Pairwise fun before s => before.toList <:+ s.toList → before = s

instance (layout : Layout) : Decidable layout.Separates := inferInstanceAs (Decidable (List.Pairwise _ _))

namespace Layout

variable {layout : Layout} {kind : Kind} {child n suffix : String}

/-- The suffix of a file is the first one of all that leaves a stem. -/
theorem exists_suffix_of_kindAndStem? {stem : String} (h : layout.kindAndStem? child = some (kind, stem)) :
    ∃ suffix ∈ layout.suffixes kind, child = stem ++ suffix ∧ ∃ before after,
      Kind.all.flatMap layout.suffixes = before ++ suffix :: after ∧
        ∀ s ∈ before, ∀ stem', stem' ≠ "" → child ≠ stem' ++ s := by
  have hnot : ∀ {k : Kind} {s : String}, ((Text.dropEnd? s child).filter (· ≠ "")).map (fun stem => (k, stem)) = none →
      ∀ stem', stem' ≠ "" → child ≠ stem' ++ s := by
    intro k s hnone stem' hne hchild
    simp [Text.dropEnd?_eq_some_iff.2 hchild, hne] at hnone
  obtain ⟨kinds, kind', laterKinds, hkinds, h, hearlierKinds⟩ := List.findSome?_eq_some_iff.1 h
  obtain ⟨earlier, suffix, later, hsuffixes, h, hearlier⟩ := List.findSome?_eq_some_iff.1 h
  obtain ⟨stem', hstem, heq⟩ := Option.map_eq_some_iff.1 h
  cases heq
  refine ⟨suffix, by simp [hsuffixes], Text.dropEnd?_eq_some_iff.1 (Option.filter_eq_some_iff.1 hstem).1,
    kinds.flatMap layout.suffixes ++ earlier, later ++ laterKinds.flatMap layout.suffixes, ?_, fun s hs => ?_⟩
  · rw [hkinds, List.flatMap_append, List.flatMap_cons, hsuffixes]
    simp
  · rcases List.mem_append.1 hs with hs | hs
    · obtain ⟨k, hk, hs⟩ := List.mem_flatMap.1 hs
      exact hnot (List.findSome?_eq_none_iff.1 (hearlierKinds k hk) s hs)
    · exact hnot (hearlier s hs)

/-- With a suffix behind it, a name without slashes is a segment. -/
theorem IsSound.isSegment_append (h : layout.IsSound) (hsuffix : suffix ∈ layout.suffixes kind) (hn : n ≠ "")
    (hslash : '/' ∉ n.toList) : ArchivePath.IsSegment (n ++ suffix) := by
  have hsuffix' := h.suffix kind suffix hsuffix
  simp only [Settings.isSuffix, Bool.and_eq_true, Bool.not_eq_true', Text.hasChar, List.contains_eq_mem,
    decide_eq_false_iff_not, decide_eq_true_eq] at hsuffix'
  obtain ⟨⟨hsize, -⟩, hsuffixslash⟩ := hsuffix'
  refine ⟨fun hempty => hn (String.append_eq_empty_iff.1 hempty).1, fun hpoint => ?_, by simp [hslash, hsuffixslash]⟩
  have hlength := congrArg String.utf8ByteSize hpoint
  rw [String.utf8ByteSize_append] at hlength
  have : n.utf8ByteSize = 0 := by
    have : ("." : String).utf8ByteSize = 1 := rfl
    omega
  exact hn (String.utf8ByteSize_eq_zero_iff.1 this)

/-- **The stem of a file is the name before its suffix**, if the name has no point and no suffix ends in an earlier
one. -/
theorem exists_kindAndStem? (hsound : layout.IsSound) (hseparates : layout.Separates) (hn : n ≠ "")
    (hpoint : '.' ∉ n.toList) (hsuffix : suffix ∈ layout.suffixes kind) :
    ∃ kind', layout.kindAndStem? (n ++ suffix) = some (kind', n) := by
  obtain ⟨⟨kind', stem⟩, hfound⟩ := Option.isSome_iff_exists.1 (isUnitFile_append hn hsuffix)
  refine ⟨kind', hfound.trans ?_⟩
  obtain ⟨found, hmem, hwhole, before, after, hall, hbefore⟩ := exists_suffix_of_kindAndStem? hfound
  have hend : found.toList <:+ suffix.toList → found = suffix := by
    intro hle
    have hsuffix := List.mem_flatMap.2 ⟨kind, kind.mem_all, hsuffix⟩
    rw [Separates, hall] at hseparates
    rw [hall] at hsuffix
    rcases List.mem_append.1 hsuffix with hsuffix | hsuffix
    · exact absurd rfl (hbefore suffix hsuffix n hn)
    · rcases List.mem_cons.1 hsuffix with heq | hsuffix
      · exact heq.symm
      · exact (List.pairwise_cons.1 (List.pairwise_append.1 hseparates).2.1).1 suffix hsuffix hle
  have hlists : n.toList ++ suffix.toList = stem.toList ++ found.toList := by
    simpa using congrArg String.toList hwhole
  have hsame : found = suffix := by
    rcases List.suffix_or_suffix_of_suffix (List.suffix_append stem.toList found.toList)
      (hlists ▸ List.suffix_append n.toList suffix.toList) with hle | ⟨front, hfront⟩
    · exact hend hle
    · cases front with
      | nil => exact (String.toList_injective hfront).symm
      | cons c front =>
        -- A longer suffix begins with a point inside the name.
        have hc : '.' = c := by
          have hstart := hsound.suffix kind' found hmem
          simp only [Settings.isSuffix, Bool.and_eq_true, Text.startsWith] at hstart
          rw [← hfront] at hstart
          simpa [List.isPrefixOf] using hstart.1.2
        rw [← hfront, ← List.append_assoc, List.append_cancel_right_eq] at hlists
        exact absurd (by simp [hlists, ← hc]) hpoint
  rw [hsame, List.append_cancel_right_eq] at hlists
  rw [String.toList_injective hlists]

end Layout

namespace Root

variable {r : Root} {layout : Layout} {dir n : String} {c : Candidate} {p : String}

/-- A suffix of a child is one of its name. -/
theorem child_append (dir n suffix : String) :
    ArchivePath.child dir n ++ suffix = ArchivePath.child dir (n ++ suffix) := by
  unfold ArchivePath.child
  split
  · rfl
  · exact String.append_assoc ..

/-- **Whatever is shown is held**, under the path of its name. -/
theorem Shows.exists_holds (h : r.Shows layout dir n) : ∃ c p, r.Holds layout (ArchivePath.child dir n) c p := by
  cases h with
  | package _ _ _ _ marker =>
    obtain ⟨⟨j, l⟩, hl, hmarker⟩ := List.any_eq_true.1 marker
    obtain ⟨name, hname, hfile⟩ := List.any_eq_true.1 hmarker
    obtain ⟨kind, -, hname⟩ := List.mem_flatMap.1 hname
    obtain ⟨suffix, hsuffix, rfl⟩ := List.mem_map.1 hname
    obtain ⟨token, hslot⟩ := mem_openLayers.1 hl
    obtain ⟨k, hk⟩ := List.getElem?_of_mem hsuffix
    refine ⟨⟨.package, kind, j, k⟩, _, l, token, suffix, hslot, hk, rfl, ?_⟩
    rwa [Layout.pathFor, String.append_assoc]
  | @module i l child kind layer _ _ file stem _ _ =>
    obtain ⟨suffix, hsuffix, rfl, -⟩ := Layout.exists_suffix_of_kindAndStem? stem
    obtain ⟨token, hslot⟩ := mem_openLayers.1 layer
    obtain ⟨k, hk⟩ := List.getElem?_of_mem hsuffix
    refine ⟨⟨.module, kind, i, k⟩, _, l, token, suffix, hslot, hk, rfl, ?_⟩
    rwa [Layout.pathFor, child_append]

/-- **What is held under a single segment is shown**, if no file stands above an entry and no suffix ends in an earlier
one. -/
theorem Holds.shows (h : r.Holds layout (ArchivePath.child dir n) c p) (hsound : layout.IsSound)
    (hseparates : layout.Separates) (hclear : ∀ l ∈ r.openLayers, l.2.Clear) (hn : UnitName.IsSingle n)
    (hmarker : n ≠ layout.packageMarker) : r.Shows layout dir n := by
  obtain ⟨l, token, suffix, hslot, hsuffix, rfl, hfile⟩ := h
  have hl := mem_openLayers.2 ⟨token, hslot⟩
  have hsuffix := List.mem_of_getElem? hsuffix
  obtain ⟨e, hentry, -⟩ := Layer.isFile_iff.1 hfile
  -- What the file stands below is a directory of its layer.
  have habove : ∀ {above : String} {ys : List String}, ys ≠ [] →
      ArchivePath.segments (layout.pathFor (ArchivePath.child dir n) c.form suffix) = ArchivePath.segments above ++ ys →
      l.isDirectory above = true := by
    intro above ys hys hsegments
    refine (hclear _ hl).isDirectory hentry ?_ ?_ <;> rw [hsegments]
    · exact List.prefix_append _ _
    · simpa using hys
  rcases hform : c.form with _ | _ <;> rw [hform] at hfile habove
  · obtain ⟨hmarkerne, hmarkerslash⟩ : layout.packageMarker ≠ "" ∧ '/' ∉ layout.packageMarker.toList := by
      have := hsound.marker
      simp only [Settings.isMarker, Bool.and_eq_true, decide_eq_true_eq, Bool.not_eq_true', Text.hasChar,
        List.contains_eq_mem, decide_eq_false_iff_not] at this
      exact this.1.1
    have hmarked := hsound.isSegment_append hsuffix hmarkerne hmarkerslash
    have hpath : layout.pathFor (ArchivePath.child dir n) .package suffix =
        ArchivePath.child dir n ++ "/" ++ (layout.packageMarker ++ suffix) := String.append_assoc ..
    have hsegments : ArchivePath.segments (layout.pathFor (ArchivePath.child dir n) .package suffix) =
        ArchivePath.segments (ArchivePath.child dir n) ++ [layout.packageMarker ++ suffix] := by
      rw [hpath, ← hmarked.segments]
      exact DiskPath.steps_append_slash _ _
    have hbelow := hsegments
    rw [ArchivePath.segments_child, List.append_assoc] at hbelow
    refine .package hl (habove (by simp) hbelow) hn.isSegment (habove (by simp) hsegments) ?_
    refine List.any_eq_true.2 ⟨_, hl, List.any_eq_true.2 ⟨layout.packageMarker ++ suffix, ?_, hpath ▸ hfile⟩⟩
    exact List.mem_flatMap.2 ⟨c.kind, c.kind.mem_all, List.mem_map_of_mem hsuffix⟩
  · have hchild := hsound.isSegment_append hsuffix hn.isSegment.1 hn.isSegment.2.2
    have hsegments : ArchivePath.segments (layout.pathFor (ArchivePath.child dir n) .module suffix) =
        ArchivePath.segments dir ++ [n ++ suffix] := by
      rw [Layout.pathFor, child_append, ArchivePath.segments_child, hchild.segments]
    obtain ⟨kind, hstem⟩ := Layout.exists_kindAndStem? hsound hseparates hn.isSegment.1 hn.2 hsuffix
    rw [Layout.pathFor, child_append] at hfile
    exact .module hl (habove (by simp) hsegments) hchild hfile hstem hmarker hn.2

end Root

/-! ## (4) Listing against resolving -/

namespace Importer

variable {m : Importer} {parent n : String}

/-- `m.Finds parent n`: the name made of both can be looked up, `n` being one segment of it, and some root holds it. -/
def Finds (m : Importer) (parent n : String) : Prop :=
  UnitName.isValid (UnitName.below parent n) = true ∧ '.' ∉ n.toList ∧
    ∃ r ∈ m.roots, (r.find? m.layout (UnitName.path (UnitName.below parent n))).isSome

instance (m : Importer) (parent n : String) : Decidable (m.Finds parent n) := inferInstanceAs (Decidable (_ ∧ _ ∧ _))

/-- **What is found** is a single segment, and some root holds it. -/
theorem finds_iff (hparent : parent = "" ∨ UnitName.isValid parent = true) : m.Finds parent n ↔
    UnitName.IsSingle n ∧ ∃ r ∈ m.roots, ∃ c p, r.Holds m.layout (ArchivePath.child (UnitName.path parent) n) c p := by
  have hholds : ∀ (r : Root) (path : String), (r.find? m.layout path).isSome ↔ ∃ c p, r.Holds m.layout path c p := by
    intro r path
    rw [Option.isSome_iff_ne_none, ne_eq, Root.find?_none]
    simp only [not_forall, not_not]
  constructor
  · rintro ⟨hvalid, hpoint, hfound⟩
    have hsingle : UnitName.IsSingle n := ⟨UnitName.isValid_below hparent hpoint ▸ hvalid, hpoint⟩
    simp only [hholds, UnitName.path_below hparent hsingle] at hfound
    exact ⟨hsingle, hfound⟩
  · rintro ⟨hsingle, hheld⟩
    refine ⟨(UnitName.isValid_below hparent hsingle.2).trans hsingle.1, hsingle.2, ?_⟩
    simp only [hholds, UnitName.path_below hparent hsingle]
    exact hheld

/-- **Listing and resolving**, all layers being open and the layout one that settings allow. Listing ends well, and on
each name but the marker:

1. the two agree if and only if whatever is shown under the name has it as a single segment, and a single segment that
  some root holds is shown by some root;
2. a single segment that is listed is found;
3. where no file stands above an entry of its layer and no suffix ends in one before it, the two differ only on names
  that are listed and are no single segment, such as those of packages whose directories have a point in their name. -/
theorem listing_agrees_iff {settings : Settings} (hcheck : settings.check = .ok ())
    (hlayout : settings.layout = m.layout) (hopen : ∀ r ∈ m.roots, r.requireOpen = .ok ())
    (hparent : parent = "" ∨ UnitName.isValid parent = true) :
    ∃ us, m.subunits (UnitName.path parent) = .ok us ∧ ∀ n, n ≠ m.layout.packageMarker →
      ((n ∈ us.map (·.name) ↔ m.Finds parent n) ↔
        ((∃ r ∈ m.roots, r.Shows m.layout (UnitName.path parent) n) → UnitName.IsSingle n) ∧
          (UnitName.IsSingle n →
            (∃ r ∈ m.roots, ∃ c p, r.Holds m.layout (ArchivePath.child (UnitName.path parent) n) c p) →
            ∃ r ∈ m.roots, r.Shows m.layout (UnitName.path parent) n)) ∧
      (UnitName.IsSingle n → n ∈ us.map (·.name) → m.Finds parent n) ∧
      (m.layout.Separates → (∀ r ∈ m.roots, ∀ l ∈ r.openLayers, l.2.Clear) →
        ((n ∈ us.map (·.name) ↔ m.Finds parent n) ↔ (n ∈ us.map (·.name) → UnitName.IsSingle n))) := by
  have hsound : m.layout.IsSound := hlayout ▸ Layout.isSound_of_check hcheck
  obtain ⟨us, hus, hlisted⟩ := mem_subunits hopen (UnitName.trimmed_path hparent)
  refine ⟨us, hus, fun n hmarker => ?_⟩
  rw [hlisted, finds_iff hparent]
  have hheld : (∃ r ∈ m.roots, r.Shows m.layout (UnitName.path parent) n) →
      ∃ r ∈ m.roots, ∃ c p, r.Holds m.layout (ArchivePath.child (UnitName.path parent) n) c p :=
    fun ⟨r, hr, hshows⟩ => ⟨r, hr, hshows.exists_holds⟩
  have hshown : m.layout.Separates → (∀ r ∈ m.roots, ∀ l ∈ r.openLayers, l.2.Clear) → UnitName.IsSingle n →
      (∃ r ∈ m.roots, ∃ c p, r.Holds m.layout (ArchivePath.child (UnitName.path parent) n) c p) →
      ∃ r ∈ m.roots, r.Shows m.layout (UnitName.path parent) n :=
    fun hseparates hclear hsingle ⟨r, hr, _, _, hholds⟩ =>
      ⟨r, hr, hholds.shows hsound hseparates (hclear r hr) hsingle hmarker⟩
  -- From here on it matters only how the three facts about the name hang together.
  generalize (∃ r ∈ m.roots, r.Shows m.layout (UnitName.path parent) n) = shown at *
  generalize (∃ r ∈ m.roots, ∃ c p, r.Holds m.layout (ArchivePath.child (UnitName.path parent) n) c p) = held at *
  tauto

/-- An importer of one layer: a package with a module, and a package whose directory has a point in its name. -/
def dottedPackage : Importer :=
  .new [⟨"/x", [.opened (.ofFiles "a" 1
      [("a.b/__init__.py", .empty), ("pkg/__init__.py", .empty), ("pkg/m.so", .empty)]) none], [], 1⟩]
    Layout.standard fun _ _ => .ok ()

/-- Below the package, listing and resolving agree on every single segment. -/
theorem dottedPackage_agrees : Settings.standard.check = .ok () ∧ Settings.standard.layout = dottedPackage.layout ∧
    (∀ r ∈ dottedPackage.roots, r.requireOpen = .ok ()) ∧ UnitName.isValid "pkg" = true ∧
    ∃ us, dottedPackage.subunits "pkg" = .ok us ∧ ∀ n, n ≠ "__init__" → UnitName.IsSingle n →
      (n ∈ us.map (·.name) ↔ dottedPackage.Finds "pkg" n) := by
  have hcheck : Settings.standard.check = .ok () := by decide
  have hopen : ∀ r ∈ dottedPackage.roots, r.requireOpen = .ok () := by
    intro r hr
    rw [List.mem_singleton.1 hr]
    rfl
  have hseparates : dottedPackage.layout.Separates := by decide
  have hclear : ∀ r ∈ dottedPackage.roots, ∀ l ∈ r.openLayers, l.2.Clear := by decide +kernel
  obtain ⟨us, hus, h⟩ := listing_agrees_iff hcheck rfl hopen
    (show "pkg" = "" ∨ UnitName.isValid "pkg" = true from .inr (by decide))
  exact ⟨hcheck, rfl, hopen, by decide, us, hus, fun n hn hsingle =>
    ((h n hn).2.2 hseparates hclear).2 fun _ => hsingle⟩

/-- **A package is listed that cannot be resolved**: its directory has a point in its name. -/
theorem dottedPackage_listed : Settings.standard.check = .ok () ∧ Settings.standard.layout = dottedPackage.layout ∧
    (∀ r ∈ dottedPackage.roots, r.requireOpen = .ok ()) ∧
    ∃ us, dottedPackage.subunits (UnitName.path "") = .ok us ∧ "a.b" ≠ dottedPackage.layout.packageMarker ∧
      ¬ ("a.b" ∈ us.map (·.name) ↔ dottedPackage.Finds "" "a.b") := by
  have hopen : ∀ r ∈ dottedPackage.roots, r.requireOpen = .ok () := by
    intro r hr
    rw [List.mem_singleton.1 hr]
    rfl
  have hlisted : (dottedPackage.subunits (UnitName.path "")).toOption = some [⟨"a.b", true⟩, ⟨"pkg", true⟩] := by
    decide +kernel
  rcases hus : dottedPackage.subunits (UnitName.path "") with e | us
  · rw [hus] at hlisted
    cases hlisted
  rw [hus] at hlisted
  cases hlisted
  refine ⟨by decide, rfl, hopen, _, rfl, by decide, fun h => ?_⟩
  exact (h.1 (by decide)).2.1 (by decide)

end Importer

end LayeredBundles
