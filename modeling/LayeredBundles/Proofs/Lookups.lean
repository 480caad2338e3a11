import LayeredBundles.Importer
import LayeredBundles.Proofs.Names

/-! # Which layer a path is taken from

Units, libraries and data files are looked up in different orders, but once the path is settled each of them
is taken from the first layer that has a file there. Data files that are unpacked with a package are taken
from every layer, and none of them has the name of a unit.

* **`Layer.read_eq`** — a file is read as it is written out, if there is room for the size in its entry;
* **`find?_eq_some_iff_least`** — what a search in order finds;
* **`Root.first?`** — the first layer that has a file at a path;
* **`Root.first?_of_find?`**, **`first?_of_findLibrary?`**, **`Importer.first?_of_locateData`** — units,
  libraries and data files are taken from it;
* **`Root.segments_of_mem_packageData`** — where the data files of a package stand, and how they are named;
* **`Hit.realize_eq`** — what a hit asks for, in order. -/

namespace LayeredBundles

open DiskPath

/-- What ends well has had a first step that ended well. -/
theorem exists_of_bind_eq_ok {ε α β : Type} {a : Except ε α} {f : α → Except ε β} {y : β} (h : a >>= f = .ok y) :
    ∃ x, a = .ok x ∧ f x = .ok y := by
  cases a with
  | error e => cases h
  | ok x => exact ⟨x, rfl, h⟩

/-- Elements come with their positions in order. -/
theorem pairwise_zipIdx {α : Type} (xs : List α) : xs.zipIdx.Pairwise fun a b => a.2 < b.2 := by
  have hrange := List.pairwise_lt_range' (s := 0) (n := xs.length)
  rw [← List.zipIdx_map_snd] at hrange
  exact List.pairwise_map.1 hrange

/-- **A search in order finds the least element of a kind.** -/
theorem find?_eq_some_iff_least {α β : Type} [Preorder β] (rank : α → β) {xs : List α} {p : α → Bool} {x : α}
    (hsorted : xs.Pairwise fun y z => rank y < rank z) :
    xs.find? p = some x ↔ x ∈ xs ∧ p x = true ∧ ∀ y ∈ xs, p y = true → rank x ≤ rank y := by
  constructor
  · intro h
    obtain ⟨hx, before, after, rfl, hbefore⟩ := List.find?_eq_some_iff_append.1 h
    refine ⟨by simp, hx, fun y hy hp => ?_⟩
    rcases List.mem_append.1 hy with hy | hy
    · have hnot := hbefore y hy
      simp [hp] at hnot
    · rcases List.mem_cons.1 hy with rfl | hy
      · exact le_rfl
      · exact le_of_lt ((List.pairwise_cons.1 (List.pairwise_append.1 hsorted).2.1).1 y hy)
  · intro ⟨hx, hp, hleast⟩
    obtain ⟨before, after, rfl⟩ := List.append_of_mem hx
    refine List.find?_eq_some_iff_append.2 ⟨hp, before, after, rfl, fun y hy => ?_⟩
    have hlt : rank y < rank x := (List.pairwise_append.1 hsorted).2.2 y hy x List.mem_cons_self
    by_contra hpy
    exact absurd (hleast y (by simp [hy]) (by simpa using hpy)) (not_le_of_gt hlt)

/-! ## (1) Files that are read as a whole -/

namespace Layer

variable {l : Layer} {path : String} {e : Entry} {c : ByteArray}

/-- The root has no entry. -/
theorem ne_root_of_entry (h : l.entry path = .ok e) : ArchivePath.normalize path ≠ "" := by
  intro hroot
  have habsent := Catalog.root_not_listed (l.members.map (·.entry))
  rw [entry_eq_ok, Catalog.get?, hroot, l.catalog_eq] at h
  rw [Table.contains, h] at habsent
  cases habsent

/-- What can be read is what is listed as a file. -/
theorem readable_eq_ok : l.readable path = .ok e ↔ l.entry path = .ok e ∧ e.isDir = false := by
  unfold readable
  constructor
  · intro h
    split at h
    · cases h
    split at h
    · cases h
    next e' hentry =>
    split at h
    · cases h
    next hdir =>
    cases h
    exact ⟨hentry, by simpa using hdir⟩
  · intro ⟨hentry, hfile⟩
    simp [ne_root_of_entry hentry, hentry, hfile]

/-- **A file is read as it is written out**, if there is room for as many bytes as its entry says. -/
theorem read_eq (hentry : l.entry path = .ok e) (hfile : e.isDir = false) :
    l.read path = if e.size ≤ maxRoom then .ok (l.contents path) else .error .noRoom := by
  rw [read, readable_eq_ok.2 ⟨hentry, hfile⟩]
  by_cases hroom : e.size ≤ maxRoom <;> simp [reserve, hroom]

/-- What is no file is refused, whether it is read or written out. -/
theorem read_of_not_isFile (h : l.isFile path = false) : l.read path = .ok (l.contents path) := by
  unfold read contents writeOut
  cases hread : l.readable path with
  | error e => rfl
  | ok e =>
    rw [isFile_iff.2 ⟨e, readable_eq_ok.1 hread⟩] at h
    cases h

/-- What comes of reading, if it does not stop short, is what comes of writing out. -/
theorem contents_of_read {r : Except BundleError ByteArray} (h : l.read path = .ok r) : l.contents path = r := by
  unfold read at h
  split at h
  · next e hread =>
    cases h
    rw [contents, writeOut, hread]
  · next e hread =>
    unfold reserve at h
    split at h
    · exact Except.ok.inj h
    · cases h

/-- The bytes that are read are those that are written out. -/
theorem read_eq_ok (hentry : l.entry path = .ok e) (hfile : e.isDir = false) {r : Except BundleError ByteArray} :
    l.read path = .ok r ↔ l.contents path = r ∧ e.size ≤ maxRoom := by
  rw [read_eq hentry hfile]
  split <;> simp [*]

end Layer

/-! ## (2) Roots -/

namespace Root

variable {r : Root} {layout : Layout} {l : Layer} {i : Nat} {path : String}

/-- The first open layer that has a file at a path, with its position. -/
def first? (r : Root) (path : String) : Option (Nat × Layer) := r.openLayers.find? fun l => l.2.isFile path

/-- An open layer is one that was opened at its position. -/
theorem mem_openLayers : (i, l) ∈ r.openLayers ↔ ∃ token, r.slots[i]? = some (.opened l token) := by
  unfold openLayers
  rw [List.mem_filterMap]
  constructor
  · rintro ⟨⟨s, j⟩, hmem, h⟩
    cases s with
    | opened l' token =>
      cases h
      exact ⟨token, List.mem_zipIdx_iff_getElem?.1 hmem⟩
    | broken => cases h
  · rintro ⟨token, h⟩
    exact ⟨(.opened l token, i), List.mem_zipIdx_iff_getElem?.2 h, rfl⟩

/-- **A layer at a position is an open layer with that position.** -/
theorem layerAt_eq_ok : r.layerAt i = .ok l ↔ (i, l) ∈ r.openLayers := by
  rw [mem_openLayers, layerAt]
  split <;> simp_all

/-- The first layer with a file is an open one. -/
theorem mem_of_first? (h : r.first? path = some (i, l)) : (i, l) ∈ r.openLayers := List.mem_of_find?_eq_some h

/-- It has that file. -/
theorem isFile_of_first? (h : r.first? path = some (i, l)) : l.isFile path = true := by
  simpa using List.find?_some h

/-- Which layer comes first does not depend on how the path is written. -/
theorem first?_normalize (r : Root) (path : String) : r.first? (ArchivePath.normalize path) = r.first? path := by
  simp only [first?, Layer.isFile_normalize]

/-- Two paths with the same steps have the same first layer. -/
theorem first?_of_steps {path' : String} (h : steps path' = steps path) : r.first? path' = r.first? path := by
  have hnormal : ArchivePath.normalize path' = ArchivePath.normalize path := congrArg ArchivePath.ofSegments h
  rw [← first?_normalize, hnormal, first?_normalize]

/-- A file in some layer is in a first one. -/
theorem exists_first? (hmem : (i, l) ∈ r.openLayers) (hfile : l.isFile path = true) :
    ∃ first, r.first? path = some first := by
  cases h : r.first? path with
  | some first => exact ⟨first, rfl⟩
  | none => exact absurd hfile (by simpa using List.find?_eq_none.1 h _ hmem)

/-- There is but one layer at a position. -/
theorem openLayers_unique {l' : Layer} (h : (i, l) ∈ r.openLayers) (h' : (i, l') ∈ r.openLayers) : l = l' := by
  rw [← layerAt_eq_ok] at h h'
  rw [h] at h'
  exact Except.ok.inj h'

/-- Open layers are listed by position. -/
theorem pairwise_openLayers (r : Root) : r.openLayers.Pairwise fun a b => a.1 < b.1 := by
  refine (pairwise_zipIdx r.slots).filterMap _ fun a a' hlt b hb b' hb' => ?_
  split at hb <;> cases hb
  split at hb' <;> cases hb'
  exact hlt

/-- **A path is taken from the least position** at which an open layer has a file there. -/
theorem first?_eq_some_iff : r.first? path = some (i, l) ↔ (i, l) ∈ r.openLayers ∧ l.isFile path = true ∧
    ∀ l' ∈ r.openLayers, l'.2.isFile path = true → i ≤ l'.1 :=
  find?_eq_some_iff_least Prod.fst r.pairwise_openLayers

/-- No layer before the first one has the file. -/
theorem le_of_first? {j : Nat} {l' : Layer} (h : r.first? path = some (i, l)) (hmem : (j, l') ∈ r.openLayers)
    (hfile : l'.isFile path = true) : i ≤ j :=
  (first?_eq_some_iff.1 h).2.2 (j, l') hmem hfile

/-- **A unit is taken from the first layer** that has its file: a layer before it would have been hit. -/
theorem first?_of_find? {name : String} {hit : Hit} (h : r.find? layout name = some hit) :
    ∃ l, r.first? hit.path = some (hit.layer, l) := by
  unfold find? at h
  obtain ⟨form, -, h⟩ := List.exists_of_findSome?_eq_some h
  obtain ⟨kind, -, h⟩ := List.exists_of_findSome?_eq_some h
  obtain ⟨before, ⟨j, l⟩, after, hlayers, hhit, hbefore⟩ := List.findSome?_eq_some_iff.1 h
  obtain ⟨suffix, hsuffix, hhit⟩ := List.exists_of_findSome?_eq_some hhit
  dsimp only at hhit
  split at hhit
  · next hfile =>
    cases hhit
    refine ⟨l, List.find?_eq_some_iff_append.2 ⟨hfile, before, after, hlayers, fun l' hl' => ?_⟩⟩
    have hnone := List.findSome?_eq_none_iff.1 (hbefore l' hl') suffix hsuffix
    simpa using hnone
  · cases hhit

/-- A hit is at the path of the name in its form, with a suffix of its kind. -/
theorem exists_suffix_of_find? {name : String} {hit : Hit} (h : r.find? layout name = some hit) :
    ∃ suffix ∈ layout.suffixes hit.kind, hit.path = layout.pathFor name hit.form suffix := by
  unfold find? at h
  obtain ⟨form, -, h⟩ := List.exists_of_findSome?_eq_some h
  obtain ⟨kind, -, h⟩ := List.exists_of_findSome?_eq_some h
  obtain ⟨l, -, h⟩ := List.exists_of_findSome?_eq_some h
  obtain ⟨suffix, hsuffix, h⟩ := List.exists_of_findSome?_eq_some h
  dsimp only at h
  split at h
  · cases h
    exact ⟨suffix, hsuffix, rfl⟩
  · cases h

/-- **A library is taken from the first layer** that has it. -/
theorem first?_of_findLibrary? {dirs : List String} {name : String} (h : r.findLibrary? dirs name = some (l, path)) :
    ∃ i, r.first? path = some (i, l) := by
  unfold findLibrary? at h
  split at h
  · cases h
  · obtain ⟨dir, -, h⟩ := List.exists_of_findSome?_eq_some h
    obtain ⟨⟨i, l'⟩, hfind, heq⟩ := Option.map_eq_some_iff.1 h
    cases heq
    exact ⟨i, hfind⟩

/-! ## (3) Data files of a package -/

/-- Children are single segments. -/
theorem isSegment_of_mem_children? {names : List String} {dir child : String} (h : l.catalog.children? dir = some names)
    (hchild : child ∈ names) : ArchivePath.IsSegment child := by
  rw [l.catalog_eq] at h
  exact ((Catalog.mem_children? h).1 hchild).1

/-- Data of a package lie below it, down a path of segments, and are no files of units. -/
theorem segments_of_mem_dataFiles {depth : Nat} {dir : String} (h : path ∈ r.dataFiles layout l depth dir) :
    ∃ names name, segments path = segments dir ++ (names ++ [name]) ∧
      (∀ s ∈ names ++ [name], ArchivePath.IsSegment s) ∧ layout.isUnitFile name = false := by
  induction depth generalizing dir with
  | zero => cases h
  | succ depth ih =>
    unfold dataFiles at h
    obtain ⟨child, hchild, h⟩ := List.mem_flatMap.1 h
    rcases hchildren : l.catalog.children? dir with _ | names
    · rw [hchildren] at hchild; cases hchild
    · rw [hchildren] at hchild
      have hsegment := isSegment_of_mem_children? hchildren hchild
      -- A child has one segment more than its directory.
      have hsegments : segments (dir ++ "/" ++ child) = segments dir ++ [child] := by
        rw [segments, Text.split_append_slash, Text.split_of_not_mem hsegment.2.2, segments]
      dsimp only at h
      split at h
      · split at h
        · cases h
        · obtain ⟨names, name, hpath, hproper, hname⟩ := ih h
          refine ⟨child :: names, name, by rw [hpath, hsegments]; simp, fun s hs => ?_, hname⟩
          rcases List.mem_cons.1 hs with rfl | hs
          · exact hsegment
          · exact hproper s hs
      · split at h
        · cases h
        · next hunit =>
          cases List.mem_singleton.1 h
          exact ⟨[], child, hsegments, by simpa using hsegment, by simpa using hunit⟩

/-- **Data files of a package** stand below it and do not have the name of a unit. -/
theorem segments_of_mem_packageData {package : String} (h : path ∈ r.packageData layout l package) :
    ∃ names name, segments path = segments package ++ (names ++ [name]) ∧
      (∀ s ∈ names ++ [name], ArchivePath.IsSegment s) ∧ layout.isUnitFile name = false := by
  unfold packageData at h
  split at h
  · exact segments_of_mem_dataFiles h
  · cases h

end Root

/-! ## (4) Hits -/

/-- The artifact of the hit's own file, if it is source of a package that has to stand on disk. -/
def Hit.extractSource (h : Hit) (r : Root) (name : String) : RootWork (Option String) := do
  if h.kind = .source ∧ r.requiresSource (UnitName.topLevel name) then
    return some (← r.makeArtifact h.layer h.path)
  return none

/-- **A hit asks for its package first**, and for its own file last. -/
theorem Hit.realize_eq (h : Hit) (r : Root) (layout : Layout) (name : String) : h.realize r layout name =
    if h.form = .package ∧ !Text.hasChar '.' name then
      r.unpackPackage layout (UnitName.path name) >>= fun _ => h.extractSource r name
    else h.extractSource r name := rfl

/-! ## (5) Importers -/

/-- The unit at a hit has the path, position and kind of the hit. -/
theorem Hit.exists_of_unit {h : Hit} {r : Root} {i : Nat} {name : String} {artifact : Option String} {u : FoundUnit}
    (hunit : h.unit r i name artifact = .ok u) : ∃ l, r.layerAt h.layer = .ok l ∧
      u = ⟨name, h.kind, h.form, i, r.dir, h.layer, l.name, h.path, artifact⟩ := by
  unfold unit at hunit
  cases hl : r.layerAt h.layer with
  | error e => rw [hl] at hunit; cases hunit
  | ok l => rw [hl] at hunit; cases hunit; exact ⟨l, rfl, rfl⟩

namespace Importer

variable {m : Importer} {r : Root} {i j : Nat} {path : String}

/-- A root is found by its position. -/
theorem root_eq_ok : m.root i = .ok r ↔ m.roots[i]? = some r := by
  unfold root
  split <;> simp_all

/-- Roots are indexed by their positions. -/
theorem mem_indexed {p : Root × Nat} : p ∈ m.indexed ↔ m.roots[p.2]? = some p.1 := List.mem_zipIdx_iff_getElem?

/-- **A data file is taken from the first layer** of a root that has it. -/
theorem first?_of_locateData (h : m.locateData path = .ok (r, i, j)) :
    m.roots[i]? = some r ∧ ∃ l, r.first? path = some (j, l) := by
  have hlocate : ∀ (roots : List (Root × Nat)) (saw : Bool), locateDataIn path saw roots = .ok (r, i, j) →
      (r, i) ∈ roots ∧ ∃ l, r.first? path = some (j, l) := by
    intro roots
    induction roots with
    | nil => exact fun saw h => nomatch h
    | cons p roots ih =>
      intro saw h
      obtain ⟨r', i'⟩ := p
      unfold locateDataIn at h
      obtain ⟨_, _, h⟩ := exists_of_bind_eq_ok h
      split at h
      · next k l hfind =>
        cases h
        exact ⟨by simp, l, hfind⟩
      · obtain ⟨hmem, hfirst⟩ := ih _ h
        exact ⟨List.mem_cons_of_mem _ hmem, hfirst⟩
  unfold locateData at h
  obtain ⟨_, _, h⟩ := exists_of_bind_eq_ok h
  obtain ⟨hmem, hfirst⟩ := hlocate _ _ h
  exact ⟨mem_indexed.1 hmem, hfirst⟩

/-- The bytes of a data file are those of the first layer that has it. -/
theorem dataBytes_eq {l : Layer} (h : m.locateData path = .ok (r, i, j)) (hl : r.first? path = some (j, l)) :
    m.dataBytes path = (l.read path).map (·.mapError .ofArchive) := by
  have hlayer : r.layerAt j = .ok l := Root.layerAt_eq_ok.2 (Root.mem_of_first? hl)
  simp only [dataBytes, readFrom, h, hlayer, bind, Except.bind]

/-- An importer of one root reads from the first layer of the root. -/
theorem dataBytes_alone {layout : Layout} {host : Host} {first : Nat × Layer} (hopen : r.requireOpen = .ok ())
    (hcontained : DiskPath.isContained path = true) (hfirst : r.first? path = some first) :
    (Importer.new [r] layout host).dataBytes path = (first.2.read path).map (·.mapError .ofArchive) := by
  have hlocate : (Importer.new [r] layout host).locateData path = .ok (r, 0, first.1) := by
    have hindexed : (Importer.new [r] layout host).indexed = [(r, 0)] := rfl
    have hfind : r.openLayers.find? (fun l => l.2.isFile path) = some first := hfirst
    simp only [locateData, Extraction.contained, hcontained, ↓reduceIte, hindexed, locateDataIn, hopen, hfind,
      bind, Except.bind, pure, Except.pure]
  exact dataBytes_eq hlocate hfirst

/-- Bytes of a data file are those of the layer's file, and there was room for them. -/
theorem map_ofArchive_eq_ok {l : Layer} {c : ByteArray} :
    (l.read path).map (·.mapError ImportFailure.ofArchive) = .ok (.ok c) ↔ l.read path = .ok (.ok c) := by
  rcases l.read path with x | e | out <;> simp [Except.map, Except.mapError]

end Importer

end LayeredBundles
