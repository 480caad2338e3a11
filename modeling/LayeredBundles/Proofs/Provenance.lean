import LayeredBundles.Proofs.UnitFiles

/-! # Where extracted files come from

The files in an extraction directory are explained by the layers alone: whatever an importer was asked for, and
however that ended, a file at a path below the directory is the file that some open layer has at this path, with
its time. In particular nothing is left of a file that was begun and not finished.

* **`Root.Explains`** — some open layer has a file, with these bytes and this time;
* **`Importer.explains_after`** — every extracted file is explained. -/

namespace LayeredBundles

open FileTree Fallible

/-- `r.Explains path c modified`: some open layer has at that path a file of these bytes, recorded at this time. They
are the bytes that are read, unless the entry says more than there can be room for. -/
def Root.Explains (r : Root) (path : String) (c : ByteArray) (modified : Instant) : Prop :=
  ∃ l ∈ r.openLayers, ∃ e, l.2.entry path = .ok e ∧ e.isDir = false ∧ l.2.contents path = .ok c ∧
    l.2.read path = (if e.size ≤ Layer.maxRoom then .ok (.ok c) else .error .noRoom) ∧
    modified.seconds = e.timestamp ∧ modified.nanos = 0

/-- A copy of a layer's file is explained by the layer. -/
theorem Root.explains_of_isCopy {r : Root} {l : Nat × Layer} {path : String} {c : ByteArray} {modified : Instant}
    (hl : l ∈ r.openLayers) (hcopy : l.2.IsCopy path (.file c modified)) : r.Explains path c modified := by
  obtain ⟨e, c', hentry, hfile, hcontents, hnode⟩ := hcopy
  cases hnode
  exact ⟨l, hl, e, hentry, hfile, hcontents, hcontents ▸ Layer.read_eq hentry hfile, e.modified_eq⟩

/-- The steps of a path are those of its normal form. -/
theorem DiskPath.steps_ofSegments_steps (path : String) :
    DiskPath.steps (ArchivePath.ofSegments (DiskPath.steps path)) = DiskPath.steps path :=
  ArchivePath.segments_normalize path

namespace Importer

variable {m : Importer} {store : RecordStore} {ds : Nat → Place} {place : Option Place} {s : ImporterState} {r : Root}

/-- Every file of every layer may be extracted. -/
def fullSupply : Supply := fun _ _ _ => True

/-- All that an importer is asked for is in the full supply. -/
theorem admits_fullSupply (m : Importer) : m.Admits fullSupply :=
  ⟨fun _ _ _ _ _ => trivial, fun _ _ _ _ _ _ _ => trivial⟩

/-- **Every extracted file is explained**, whatever an importer of one root was asked for since its directory was
absent, and whether or not that ended well. -/
theorem explains_after (hbegins : m.Begins store ds place s.workspace) (hroots : m.roots = [r]) (qs : List Request)
    {names : List String} (hnames : names ≠ []) {c : ByteArray} {modified : Instant}
    (hfile : (m.after store s qs).workspace.tree.node? (ds 0 ++ names) = some (.file c modified)) :
    r.Explains (ArchivePath.ofSegments names) c modified := by
  have hstock : m.Stock fullSupply store ds place (m.after store s qs).workspace :=
    stock_after (admits_fullSupply m) hbegins fun _ _ _ _ _ _ _ _ => trivial
  obtain ⟨l, path, ⟨i, hl, -⟩, rfl, hcopy⟩ := hstock.stocked 0 r (by simp [hroots]) names c modified hnames hfile
  exact Root.explains_of_isCopy hl (hcopy.of_steps (DiskPath.steps_ofSegments_steps path).symm)

/-- After a binary was found and prepared, it and its library are explained. -/
theorem withLibrary_explains : (withLibrary "/x").Begins .memory (fun _ => ["x"]) none (.ofTree .empty) ∧
    ∃ c modified, ((withLibrary "/x").after .memory (.ofWorkspace (.ofTree .empty))
        [.resolve "m", .prepare (withLibraryUnit "/x")]).workspace.tree.node? ["x", "lib", "libz.so"]
          = some (.file c modified) ∧
      (⟨"/x", [.opened (.ofFiles "a" 1 [("m.so", needingZ), ("lib/libz.so", .empty)]) none], [], 1⟩ : Root).Explains
        "lib/libz.so" c modified := by
  have hbegins : (withLibrary "/x").Begins .memory (fun _ => ["x"]) none (.ofTree .empty) :=
    begins_alone rfl (by decide) (by decide)
  have hfile : ((withLibrary "/x").after .memory (.ofWorkspace (.ofTree .empty))
      [.resolve "m", .prepare (withLibraryUnit "/x")]).workspace.tree.node? ["x", "lib", "libz.so"]
        = some (.file .empty ⟨1, 0, by decide⟩) := by decide +kernel
  have hexplains := explains_after (s := .ofWorkspace (.ofTree .empty)) hbegins rfl
    [.resolve "m", .prepare (withLibraryUnit "/x")] (List.cons_ne_nil "lib" ["libz.so"]) hfile
  exact ⟨hbegins, _, _, hfile, hexplains⟩

/-- What is asked for where the path of the directory passes the library: the last request mends the path, which the
one before it broke. -/
def throughLibraryRequests : List Request :=
  [.resolve "m", .prepare (withLibraryUnit throughLibrary), .makeData "m.so"]

/-- **A temporary file is left** when the path of the directory passes the file that is being made. -/
theorem throughLibrary_temporary_left :
    ∃ r c modified, (withLibrary throughLibrary).roots = [r] ∧
      ((withLibrary throughLibrary).after .memory (.ofWorkspace (.ofTree .empty))
        throughLibraryRequests).workspace.tree.look true (DiskPath.join r.dir "lib/.libz.so.1-1.part")
          = .ok (.file c modified) ∧
      ¬ r.Explains "lib/.libz.so.1-1.part" c modified := by
  have hlook : ((withLibrary throughLibrary).after .memory (.ofWorkspace (.ofTree .empty))
      throughLibraryRequests).workspace.tree.look true (DiskPath.join throughLibrary "lib/.libz.so.1-1.part")
        = .ok (.file .empty ⟨1, 0, by decide⟩) := by decide +kernel
  refine ⟨_, _, _, rfl, hlook, ?_⟩
  rintro ⟨l, hl, e, hentry, hfile, -⟩
  have hnone : ∀ l ∈ (⟨throughLibrary, [.opened (.ofFiles "a" 1 [("m.so", needingZ), ("lib/libz.so", .empty)]) none],
      [], 1⟩ : Root).openLayers, l.2.isFile "lib/.libz.so.1-1.part" = false := by decide +kernel
  have hisFile := Layer.isFile_iff.2 ⟨e, hentry, hfile⟩
  rw [hnone l hl] at hisFile
  cases hisFile

end Importer

end LayeredBundles
