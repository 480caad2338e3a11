import LayeredBundles.Proofs.Listing
import LayeredBundles.Proofs.Tables
import Mathlib.Data.List.Sort

/-! # Listing puts layers together in no order

The units of a path are added one after another, root by root and layer by layer: a package replaces what was found, and
a module only fills a gap. What comes of it is told by all layers together, so their order does not matter.

* **`Importer.Merges`** — what has to be listed, told without any order;
* **`Importer.Merges.unique`** — only one list is it;
* **`Importer.Rearranges`** — the same layers, with the roots and the layers inside them in another order;
* **`Importer.subunits_merged`** — what is listed is merged, in whatever order; a layer that is not open ends it. -/

namespace LayeredBundles

/-! ## (1) Paths that take the same steps -/

variable {path path' n : String}

/-- Children of one directory have the same segments, however it is written. -/
theorem ArchivePath.segments_child_congr (h : ArchivePath.segments path = ArchivePath.segments path') (n : String) :
    ArchivePath.segments (ArchivePath.child path n) = ArchivePath.segments (ArchivePath.child path' n) := by
  rw [ArchivePath.segments_child, ArchivePath.segments_child, h]

namespace Layer

/-- A path is looked up in a layer by its segments. -/
theorem isDirectory_of_segments (h : ArchivePath.segments path = ArchivePath.segments path') (l : Layer) :
    l.isDirectory path = l.isDirectory path' := by
  have hnormal : ArchivePath.normalize path = ArchivePath.normalize path' := congrArg ArchivePath.ofSegments h
  rw [isDirectory, isDirectory, Catalog.isDirectory, Catalog.isDirectory, Catalog.get?, Catalog.get?, hnormal]

/-- What is a file depends on the segments of its path alone. -/
theorem isFile_of_segments (h : ArchivePath.segments path = ArchivePath.segments path') (l : Layer) :
    l.isFile path = l.isFile path' := by
  have hnormal : ArchivePath.normalize path = ArchivePath.normalize path' := congrArg ArchivePath.ofSegments h
  rw [← isFile_normalize, hnormal, isFile_normalize]

end Layer

namespace Root

variable {r : Root} {layout : Layout}

/-- So does what is a package. -/
theorem HasPackage.of_segments (h : ArchivePath.segments path = ArchivePath.segments path')
    (hpackage : r.HasPackage layout path n) : r.HasPackage layout path' n := by
  have hchild := ArchivePath.segments_child_congr h n
  obtain ⟨⟨l, hl, habove, hsegment, hdirectory⟩, l', hl', marker, hmarker, hfile⟩ := hpackage
  have hinside : ArchivePath.segments (ArchivePath.child path n ++ "/" ++ marker) =
      ArchivePath.segments (ArchivePath.child path' n ++ "/" ++ marker) := by
    rw [← DiskPath.steps_eq_archive, ← DiskPath.steps_eq_archive, DiskPath.steps_append_slash,
      DiskPath.steps_append_slash]
    exact congrArg (· ++ DiskPath.steps marker) hchild
  exact ⟨⟨l, hl, l.isDirectory_of_segments h ▸ habove, hsegment, l.isDirectory_of_segments hchild ▸ hdirectory⟩,
    l', hl', marker, hmarker, l'.isFile_of_segments hinside ▸ hfile⟩

/-- So does what is a module. -/
theorem HasModule.of_segments (h : ArchivePath.segments path = ArchivePath.segments path')
    (hmodule : r.HasModule layout path n) : r.HasModule layout path' n := by
  obtain ⟨⟨l, hl, habove, child, hsegment, hfile, hstem⟩, hname, hpoint⟩ := hmodule
  exact ⟨⟨l, hl, l.isDirectory_of_segments h ▸ habove, child, hsegment,
    l.isFile_of_segments (ArchivePath.segments_child_congr h child) ▸ hfile, hstem⟩, hname, hpoint⟩

/-- Two spellings of a directory have the same packages. -/
theorem hasPackage_of_segments (h : ArchivePath.segments path = ArchivePath.segments path') :
    r.HasPackage layout path n ↔ r.HasPackage layout path' n := ⟨.of_segments h, .of_segments h.symm⟩

/-- They have the same modules. -/
theorem hasModule_of_segments (h : ArchivePath.segments path = ArchivePath.segments path') :
    r.HasModule layout path n ↔ r.HasModule layout path' n := ⟨.of_segments h, .of_segments h.symm⟩

end Root

/-! ## (2) Layers in another order -/

namespace Root

variable {r r' : Root} {layout : Layout} {path n : String}

/-- A layer of the root is not open. -/
def IsBroken (r : Root) : Prop := ∃ name reason, .broken name reason ∈ r.slots

/-- `r.BrokenBy name reason`: this is the first layer of the root that is not open. -/
def BrokenBy (r : Root) (name : String) (reason : BrokenReason) : Prop :=
  ∃ before after, r.slots = before ++ .broken name reason :: after ∧ ∀ s ∈ before, ∃ l token, s = .opened l token

/-- `r.Rearranges r'`: the roots have the same layers, if not in the same order. -/
def Rearranges (r r' : Root) : Prop := r.slots.Perm r'.slots

/-- What is broken by a layer is broken. -/
theorem BrokenBy.isBroken {name : String} {reason : BrokenReason} (h : r.BrokenBy name reason) : r.IsBroken := by
  obtain ⟨before, after, hslots, -⟩ := h
  exact ⟨name, reason, by simp [hslots]⟩

/-- **A root is refused** if and only if one of its layers is not open. -/
theorem requireOpen_verdict (r : Root) : ¬ r.IsBroken ∧ r.requireOpen = .ok () ∨
    ∃ name reason, r.BrokenBy name reason ∧ r.requireOpen = .error (r.notOpen name reason) := by
  rcases r.requireOpen_cases with ⟨hopen, hnone⟩ | ⟨before, name, reason, after, hslots, hbefore, herror⟩
  · exact .inl ⟨fun ⟨name, reason, hmem⟩ => hnone name reason hmem, hopen⟩
  · exact .inr ⟨name, reason, ⟨before, after, hslots, hbefore⟩, herror⟩

/-- The same layers are open in another order. -/
theorem Rearranges.opens {l : Layer} (h : r.Rearranges r') : r.Opens l ↔ r'.Opens l := by
  simp only [Opens, h.mem_iff]

/-- The same roots are broken. -/
theorem Rearranges.isBroken (h : r.Rearranges r') : r.IsBroken ↔ r'.IsBroken := by
  simp only [IsBroken, h.mem_iff]

/-- The same packages are there. -/
theorem Rearranges.hasPackage (h : r.Rearranges r') : r.HasPackage layout path n ↔ r'.HasPackage layout path n := by
  constructor <;> rintro ⟨hdirectory, hmarker⟩
  · exact ⟨by simpa only [h.opens] using hdirectory, by simpa only [h.opens] using hmarker⟩
  · exact ⟨by simpa only [h.opens] using hdirectory, by simpa only [h.opens] using hmarker⟩

/-- The same modules are there. -/
theorem Rearranges.hasModule (h : r.Rearranges r') : r.HasModule layout path n ↔ r'.HasModule layout path n := by
  constructor <;> rintro ⟨hfile, hname, hpoint⟩
  · exact ⟨by simpa only [h.opens] using hfile, hname, hpoint⟩
  · exact ⟨by simpa only [h.opens] using hfile, hname, hpoint⟩

end Root

namespace Importer

variable {m m' : Importer} {path : String} {us vs : List ListedUnit}

/-- `m.Rearranges m'`: the roots come in another order, and so do the layers inside each. -/
structure Rearranges (m m' : Importer) : Prop where
  /-- Names map to the same paths. -/
  layout : m'.layout = m.layout
  /-- The roots, put in order first and each rearranged then. -/
  roots : ∃ rs, m.roots.Perm rs ∧ List.Forall₂ Root.Rearranges rs m'.roots

/-- What some root has, some root has in another order. -/
theorem Rearranges.exists_root {p q : Root → Prop} (h : m.Rearranges m')
    (hroot : ∀ r r', r.Rearranges r' → (p r ↔ q r')) : (∃ r ∈ m.roots, p r) ↔ ∃ r ∈ m'.roots, q r := by
  obtain ⟨rs, hperm, heach⟩ := h.roots
  simp only [hperm.mem_iff]
  generalize m'.roots = rs' at heach
  clear hperm
  induction heach with
  | nil => simp
  | cons hr _ ih => simp only [List.mem_cons, exists_eq_or_imp, hroot _ _ hr, ih]

/-! ## (3) What is listed -/

/-- `m.Merges path us`: the units are those that all layers have right below the path, told without any order of the
layers. -/
structure Merges (m : Importer) (path : String) (us : List ListedUnit) : Prop where
  /-- They come by name, each name once. -/
  sorted : us.Pairwise fun u v => u.name < v.name
  /-- Packages are those that some root has. -/
  package : ∀ n, ⟨n, true⟩ ∈ us ↔ ∃ r ∈ m.roots, r.HasPackage m.layout path n
  /-- Modules are those that some root has and that are not listed as packages. -/
  module : ∀ n, ⟨n, false⟩ ∈ us ↔ ⟨n, true⟩ ∉ us ∧ ∃ r ∈ m.roots, r.HasModule m.layout path n

/-- **Only one list is merged.** -/
theorem Merges.unique (h : m.Merges path us) (h' : m.Merges path vs) : us = vs := by
  have : Std.Irrefl fun u v : ListedUnit => u.name < v.name := ⟨fun u => lt_irrefl u.name⟩
  refine h.sorted.eq_of_mem_iff h'.sorted fun ⟨n, isPackage⟩ => ?_
  cases isPackage with
  | true => rw [h.package, h'.package]
  | false => rw [h.module, h'.module, h.package, h'.package]

/-- **The order of the layers does not matter** to what is merged. -/
theorem Merges.of_rearranges (h : m.Merges path us) (hm : m.Rearranges m') : m'.Merges path us := by
  refine ⟨h.sorted, fun n => ?_, fun n => ?_⟩
  · rw [h.package, hm.layout, hm.exists_root fun r r' hr => hr.hasPackage]
  · rw [h.module, hm.layout, hm.exists_root fun r r' hr => hr.hasModule]

/-- Adding units keeps the names in order. -/
theorem sorted_foldl_addListed {units : List (String × Bool)} {found : Table String Bool} (h : Table.Sorted found) :
    Table.Sorted (units.foldl addListed found) := by
  induction units generalizing found with
  | nil => exact h
  | cons u units ih =>
    rw [List.foldl_cons]
    refine ih ?_
    unfold addListed
    split
    · exact Table.sorted_insert h _ _
    · exact h

/-- The units of a table in order are those that are found in it. -/
theorem mem_map_of_sorted {found : Table String Bool} (h : Table.Sorted found) {n : String} {isPackage : Bool} :
    ⟨n, isPackage⟩ ∈ found.map (fun u => (⟨u.1, u.2⟩ : ListedUnit)) ↔ Table.find? found n = some isPackage := by
  simp only [List.mem_map, ListedUnit.mk.injEq]
  constructor
  · rintro ⟨⟨n', isPackage'⟩, hu, rfl, rfl⟩
    exact Table.find?_of_mem h.nodup hu
  · exact fun hfind => ⟨(n, isPackage), Table.mem_of_find? hfind, rfl, rfl⟩

/-- **What is listed is merged**, if all layers are open. -/
theorem exists_merges (hopen : ∀ r ∈ m.roots, ¬ r.IsBroken) (path : String) :
    ∃ us, m.subunits path = .ok us ∧ m.Merges path us := by
  have hall : ∀ r ∈ m.roots, r.requireOpen = .ok () := fun r hr =>
    r.requireOpen_verdict.elim (·.2) fun ⟨_, _, hbroken, _⟩ => absurd hbroken.isBroken (hopen r hr)
  refine ⟨_, subunits_eq hall path, ?_⟩
  have hsegments : ArchivePath.segments (Text.dropStartWhile (· = '/') (DiskPath.withoutSlashes path)) =
      ArchivePath.segments path := by
    rw [← DiskPath.steps_eq_archive, DiskPath.steps_dropSlashes, DiskPath.steps_withoutSlashes,
      DiskPath.steps_eq_archive]
  generalize Text.dropStartWhile (· = '/') (DiskPath.withoutSlashes path) = dir at hsegments
  have hpackage : ∀ n, (n, true) ∈ m.roots.flatMap (unitsOf m.layout dir) ↔
      ∃ r ∈ m.roots, r.HasPackage m.layout path n := by
    intro n
    simp only [List.mem_flatMap, Root.mem_unitsOf_package, Root.hasPackage_of_segments hsegments]
  have hmodule : ∀ n, (n, false) ∈ m.roots.flatMap (unitsOf m.layout dir) ↔
      ∃ r ∈ m.roots, r.HasModule m.layout path n := by
    intro n
    simp only [List.mem_flatMap, Root.mem_unitsOf_module, Root.hasModule_of_segments hsegments]
  generalize m.roots.flatMap (unitsOf m.layout dir) = units at hpackage hmodule
  have hsorted : Table.Sorted (units.foldl addListed []) := sorted_foldl_addListed List.Pairwise.nil
  refine ⟨List.pairwise_map.2 hsorted, fun n => ?_, fun n => ?_⟩
  · rw [mem_map_of_sorted hsorted, find?_foldl_addListed, ← hpackage]
    by_cases hn : (n, true) ∈ units <;> simp [hn]
  · rw [mem_map_of_sorted hsorted, mem_map_of_sorted hsorted, find?_foldl_addListed, ← hmodule]
    by_cases hn : (n, true) ∈ units <;> simp [hn]

/-- **Roots are asked in turn** whether their layers are open, up to the first one that is broken. -/
theorem exists_first_broken {roots : List Root} (hbroken : ∃ r ∈ roots, r.IsBroken) :
    ∃ before r after name reason, roots = before ++ r :: after ∧ (∀ q ∈ before, ¬ q.IsBroken) ∧
      r.BrokenBy name reason ∧ (roots.forM fun r => r.requireOpen) = .error (r.notOpen name reason) := by
  induction roots with
  | nil => simp at hbroken
  | cons r roots ih =>
    have hstep : ((r :: roots).forM fun r => r.requireOpen) =
        r.requireOpen >>= fun _ => roots.forM fun r => r.requireOpen := rfl
    rcases r.requireOpen_verdict with ⟨hnot, hopen⟩ | ⟨name, reason, hby, herror⟩
    · obtain ⟨before, r', after, name, reason, rfl, hbefore, hby, herror⟩ := ih (by simpa [hnot] using hbroken)
      exact ⟨r :: before, r', after, name, reason, rfl, by simpa using ⟨hnot, hbefore⟩, hby, by
        rw [hstep, hopen]
        exact herror⟩
    · exact ⟨[], r, roots, name, reason, rfl, by simp, hby, by rw [hstep, herror]; rfl⟩

/-- **What is listed is merged**, in whatever order the layers come:

1. if all layers are open, listing ends well; the units come by name, packages are the directories that have a marker
  file in some layer of their root, and modules are the files of which the stem is no package;
2. the same is listed if the roots, or the layers inside them, come in another order;
3. if a layer is not open, listing ends with the first one of the first root that has one. -/
theorem subunits_merged (m : Importer) (path : String) :
    ((∀ r ∈ m.roots, ¬ r.IsBroken) → ∃ us, m.subunits path = .ok us ∧ m.Merges path us ∧
      ∀ m', m.Rearranges m' → m'.subunits path = .ok us) ∧
    ((∃ r ∈ m.roots, r.IsBroken) → ∃ before r after name reason, m.roots = before ++ r :: after ∧
      (∀ q ∈ before, ¬ q.IsBroken) ∧ r.BrokenBy name reason ∧
      m.subunits path = .error (.corruptArchive r.dir name reason)) := by
  constructor
  · intro hopen
    obtain ⟨us, hus, hmerges⟩ := exists_merges hopen path
    refine ⟨us, hus, hmerges, fun m' hm => ?_⟩
    have hopen' : ∀ r ∈ m'.roots, ¬ r.IsBroken := by
      simpa using (not_congr (hm.exists_root fun r r' hr => hr.isBroken)).1 (by simpa using hopen)
    obtain ⟨vs, hvs, hmerges'⟩ := exists_merges hopen' path
    rw [hvs, (hmerges.of_rearranges hm).unique hmerges']
  · intro hbroken
    obtain ⟨before, r, after, name, reason, hroots, hbefore, hby, herror⟩ := exists_first_broken hbroken
    refine ⟨before, r, after, name, reason, hroots, hbefore, hby, ?_⟩
    rw [subunits, herror]
    rfl

/-- An importer of two roots, the first of which has a directory in one layer and its marker in the other. -/
def scattered : Importer :=
  .new [⟨"/x", [.opened (.ofFiles "a" 1 [("pkg/data.txt", .empty), ("tool.py", .empty)]) none,
      .opened (.ofFiles "b" 1 [("pkg/__init__.py", .empty)]) none], [], 1⟩,
    ⟨"/y", [.opened (.ofFiles "c" 1
      [("pkg.py", .empty), ("tool/__init__.py", .empty), ("lone.so", .empty)]) none], [], 1⟩]
    Layout.standard fun _ _ => .ok ()

/-- The same layers from last to first. -/
def scatteredBack : Importer :=
  { scattered with roots := scattered.roots.reverse.map fun r => { r with slots := r.slots.reverse } }

/-- The same layers, and one more that is not open. -/
def scatteredBroken : Importer :=
  { scattered with roots := scattered.roots ++ [⟨"/z", [.broken "d" (.opening (.corrupt "d" .unknownFormat))], [], 1⟩] }

/-- Three units are listed, two of them packages, and none with the layer that is not open. -/
theorem scattered_merged : (∀ r ∈ scattered.roots, ¬ r.IsBroken) ∧ scattered.Rearranges scatteredBack ∧
    scatteredBack.subunits "/" = .ok [⟨"lone", false⟩, ⟨"pkg", true⟩, ⟨"tool", true⟩] ∧
    (∃ r ∈ scatteredBroken.roots, r.IsBroken) ∧
    ∃ dir name reason, scatteredBroken.subunits "/" = .error (.corruptArchive dir name reason) := by
  have hopen : ∀ r ∈ scattered.roots, ¬ r.IsBroken := by
    rintro r hr ⟨name, reason, hbroken⟩
    simp only [scattered, Importer.new, List.mem_cons, List.not_mem_nil, or_false] at hr
    rcases hr with rfl | rfl <;> simp at hbroken
  have hback : scattered.Rearranges scatteredBack :=
    ⟨rfl, _, (List.reverse_perm _).symm, List.forall₂_map_right_iff.2
      (List.forall₂_same.2 fun r _ => (List.reverse_perm _).symm)⟩
  have hbroken : ∃ r ∈ scatteredBroken.roots, r.IsBroken :=
    ⟨_, List.mem_append_right _ (List.mem_singleton_self _), _, _, List.mem_singleton_self _⟩
  have hlisted : (scattered.subunits "/").toOption = some [⟨"lone", false⟩, ⟨"pkg", true⟩, ⟨"tool", true⟩] := by
    decide +kernel
  obtain ⟨us, hus, -, hsame⟩ := (subunits_merged scattered "/").1 hopen
  rw [hus] at hlisted
  cases hlisted
  obtain ⟨-, r, -, name, reason, -, -, -, herror⟩ := (subunits_merged scatteredBroken "/").2 hbroken
  exact ⟨hopen, hback, hsame _ hback, hbroken, r.dir, name, reason, herror⟩

end Importer

end LayeredBundles
