import LayeredBundles.Proofs.Copies

/-! # Data files on disk and in the layers

A data file is read from the first layer that has it, and its artifact is the copy of that layer's file. But
the data files of a package are unpacked from every layer, each over the ones before it, and an artifact is
taken to be current by its size and time alone. So what stands at the path of an artifact may be the copy of a
later layer's file, and then it is handed out in place of the first one's.

* **`Importer.Agrees`** — the artifact has the bytes that are read;
* **`Importer.Masked`** — a later layer's copy is taken for that of the first layer;
* **`Importer.agrees_iff_not_masked`** — whatever was asked for before, this is all that can go wrong. -/

namespace LayeredBundles

open FileTree Fallible

namespace Importer

variable {m : Importer} {store : RecordStore} {ds : Nat → Place} {place : Option Place} {s s' : ImporterState}
  {r : Root} {i j : Nat} {l : Layer} {path dest : String}

/-! ## (1) Making the artifact of a data file -/

/-- The artifact of a data file is that of the first layer's file. -/
theorem outcome_makeDataArtifact (h : m.locateData path = .ok (r, i, j)) (hl : r.first? path = some (j, l))
    (s : ImporterState) : ((m.makeDataArtifact path).outcome s).1
        = ((Extraction.makeArtifact r.dir l path).outcome s.workspace).1 ∧
      ((m.makeDataArtifact path).outcome s).2.workspace
        = ((Extraction.makeArtifact r.dir l path).outcome s.workspace).2 := by
  have hlayer : r.layerAt j = .ok l := Root.layerAt_eq_ok.2 (Root.mem_of_first? hl)
  have hroot : ∀ s : RootState, (r.makeArtifact j path).outcome s
      = (RootWork.ofWork (Extraction.makeArtifact r.dir l path)).outcome s := by
    intro s
    unfold Root.makeArtifact
    rw [hlayer]
    exact outcome_bind_ok (outcome_ofExcept _ _) _
  have hwhole : (m.makeDataArtifact path).outcome s = (Importing.onRoot i (r.makeArtifact j path)).outcome s := by
    unfold makeDataArtifact
    rw [h]
    exact outcome_bind_ok (outcome_ofExcept _ _) _
  rw [hwhole, Importing.onRoot, outcome_onto, hroot]
  exact ⟨rfl, rfl⟩

/-- What ends well has found a layer. -/
theorem exists_of_makeDataArtifact (h : (m.makeDataArtifact path).outcome s = (.ok dest, s')) :
    ∃ r i j l, m.locateData path = .ok (r, i, j) ∧ m.roots[i]? = some r ∧ r.first? path = some (j, l) ∧
      (Extraction.makeArtifact r.dir l path).outcome s.workspace = (.ok dest, s'.workspace) := by
  have hmake := h
  unfold makeDataArtifact at hmake
  obtain ⟨⟨r, i, j⟩, s₁, hlocate, -⟩ := exists_of_outcome_bind_ok hmake
  rw [outcome_ofExcept] at hlocate
  have hlocated : m.locateData path = .ok (r, i, j) := (Prod.mk.inj hlocate).1
  obtain ⟨hr, l, hfirst⟩ := first?_of_locateData hlocated
  obtain ⟨hout, hworkspace⟩ := outcome_makeDataArtifact hlocated hfirst s
  rw [h] at hout hworkspace
  exact ⟨r, i, j, l, hlocated, hr, hfirst, Prod.ext hout.symm hworkspace.symm⟩

/-! ## (2) Agreement -/

/-- `m.Agrees w path dest`: the file at `dest` has the bytes that are read at `path`. -/
def Agrees (m : Importer) (w : Workspace) (path dest : String) : Prop :=
  ∃ c modified, w.tree.look false dest = .ok (.file c modified) ∧ m.dataBytes path = .ok (.ok c)

/-- `m.Oversized path`: the layer says more bytes of the data file than there can be room for, so reading it stops
short. -/
def Oversized (m : Importer) (path : String) : Prop :=
  ∃ r i j l e, m.locateData path = .ok (r, i, j) ∧ r.first? path = some (j, l) ∧ l.entry path = .ok e ∧
    Layer.maxRoom < e.size

/-- `m.Masked w path dest`: at `dest` stands the copy of a later layer's file. By size and time it is taken for that
of the first layer, but its bytes are others. -/
def Masked (m : Importer) (w : Workspace) (path dest : String) : Prop :=
  ∃ r i j k first later e c modified, m.locateData path = .ok (r, i, j) ∧
    r.first? path = some (j, first) ∧ first.entry path = .ok e ∧
    (k, later) ∈ r.openLayers ∧ j < k ∧ later.IsCopy path (.file c modified) ∧
    w.tree.look false dest = .ok (.file c modified) ∧ Extraction.isFresh w.tree dest e = true ∧
    first.contents path ≠ .ok c

/-- In a stocked directory, what stands at an artifact's path is the copy of a file that the supply has for the steps
of the path. -/
theorem Stock.exists_copy {P : Supply} {w : Workspace} {names : List String} {name : String} {e : Entry}
    (h : m.Stock P store ds place w) (hr : m.roots[i]? = some r)
    (htarget : Extraction.Target r.dir l path names name e dest) {c : ByteArray} {modified : Instant}
    (hlook : w.tree.look false dest = .ok (.file c modified)) :
    ∃ k later path', (k, later) ∈ r.openLayers ∧ P r (k, later) path' ∧
      DiskPath.steps path' = DiskPath.steps path ∧ later.IsCopy path (.file c modified) := by
  have hnode := (look_stands ((h.site i r hr).inside htarget.inside) hlook).1
  rw [List.append_assoc] at hnode
  obtain ⟨later, path', ⟨k, hk, hP⟩, hsteps, hcopy⟩ := h.stocked i r hr _ c modified (by simp) hnode
  have hsame := hsteps.trans htarget.steps.symm
  exact ⟨k, later, path', hk, hP, hsame, hcopy.of_steps hsame⟩

/-- Room for the bytes of a data file is a matter of its entry. -/
theorem oversized_iff {e : Entry} (hlocate : m.locateData path = .ok (r, i, j)) (hfirst : r.first? path = some (j, l))
    (hentry : l.entry path = .ok e) : m.Oversized path ↔ Layer.maxRoom < e.size := by
  refine ⟨fun ⟨r', i', j', l', e', hlocate', hfirst', hentry', hroom⟩ => ?_, fun hroom =>
    ⟨r, i, j, l, e, hlocate, hfirst, hentry, hroom⟩⟩
  cases hlocate.symm.trans hlocate'
  cases hfirst.symm.trans hfirst'
  cases hentry.symm.trans hentry'
  exact hroom

/-- **The artifact of a data file has the bytes that are read**, unless a later layer's copy is taken for that of
the first layer, or there is no room to read the file. This holds whatever the importer was asked for since its
directories were absent. -/
theorem agrees_iff_not_masked (h : m.Begins store ds place s.workspace) (qs : List Request)
    (hok : (m.makeDataArtifact path).outcome (m.after store s qs) = (.ok dest, s')) :
    m.Agrees s'.workspace path dest ↔
      ¬ m.Masked (m.after store s qs).workspace path dest ∧ ¬ m.Oversized path := by
  have hstock : m.Stock (fun _ _ _ => True) store ds place (m.after store s qs).workspace :=
    stock_after ⟨fun _ _ _ _ _ => trivial, fun _ _ _ _ _ _ _ => trivial⟩ h fun _ _ _ _ _ _ _ _ => trivial
  obtain ⟨r, i, j, first, hlocate, hr, hfirst, hmake⟩ := exists_of_makeDataArtifact hok
  have hmade := Extraction.makeArtifact_yields (hstock.site i r hr) first path
  rw [Yields, hmake] at hmade
  -- What is read is what is written out, if there is room for it.
  have hagrees {names : List String} {name : String} {e : Entry}
      (htarget : Extraction.Target r.dir first path names name e dest) : m.Agrees s'.workspace path dest ↔
        (∃ c modified, s'.workspace.tree.look false dest = .ok (.file c modified) ∧ first.contents path = .ok c) ∧
          ¬ m.Oversized path := by
    simp only [Agrees, dataBytes_eq hlocate hfirst, map_ofArchive_eq_ok, Layer.read_eq_ok htarget.entry htarget.file,
      oversized_iff hlocate hfirst htarget.entry, Nat.not_lt, ← and_assoc, exists_and_right]
  generalize (m.after store s qs).workspace = w at *
  cases hmade with
  | @current names name e _ target fresh =>
    rw [hagrees target]
    refine and_congr_left fun _ => ?_
    obtain ⟨c, modified, hlook, -⟩ := Extraction.exists_of_isFresh fresh
    obtain ⟨k, later, -, hk, -, -, hcopy⟩ := hstock.exists_copy hr target hlook
    constructor
    · rintro ⟨c', modified', hlook', hcontents⟩ ⟨r', i', j', k', first', later', e', c'', modified'', hlocate', hfirst',
        -, -, -, -, hlook'', -, hother⟩
      cases hlocate.symm.trans hlocate'
      cases hfirst.symm.trans hfirst'
      cases hlook'.symm.trans hlook''
      exact hother hcontents
    · intro hnot
      refine ⟨c, modified, hlook, ?_⟩
      by_contra hother
      have hlt : j < k := by
        refine Nat.lt_of_le_of_ne (Root.le_of_first? hfirst hk hcopy.isFile) ?_
        rintro rfl
        obtain ⟨e', c', -, -, hcontents, hc⟩ := hcopy
        cases hc
        exact hother (Root.openLayers_unique hk (Root.mem_of_first? hfirst) ▸ hcontents)
      exact hnot ⟨r, i, j, k, first, later, e, c, modified, hlocate, hfirst, target.entry, hk, hlt, hcopy, hlook, fresh,
        hother⟩
  | @arrived names name e _ target stale _ keeps serial next touches arrived =>
    rw [hagrees target]
    refine and_congr_left fun _ => ?_
    obtain ⟨c, hcontents, hlook, -⟩ := arrived
    refine iff_of_true ⟨c, e.modified, hlook, by rw [← Layer.contents_entry target.entry, hcontents]⟩ ?_
    rintro ⟨r', i', j', k', first', later', e', c', modified', hlocate', hfirst', hentry', -, -, -, -, hfresh, -⟩
    cases hlocate.symm.trans hlocate'
    cases hfirst.symm.trans hfirst'
    cases target.entry.symm.trans hentry'
    rw [stale] at hfresh
    cases hfresh

/-! ## (3) A copy that is masked -/

instance (m : Importer) (w : Workspace) (path dest : String) : Decidable (m.Agrees w path dest) :=
  match hlook : w.tree.look false dest with
  | .ok (.file c modified) =>
    decidable_of_iff (m.dataBytes path = .ok (.ok c))
      ⟨fun h => ⟨c, modified, hlook, h⟩, fun ⟨c', modified', hlook', h⟩ => by
        cases hlook.symm.trans hlook'
        exact h⟩
  | .ok .directory => isFalse fun ⟨_, _, hlook', _⟩ => nomatch hlook.symm.trans hlook'
  | .ok (.link _) => isFalse fun ⟨_, _, hlook', _⟩ => nomatch hlook.symm.trans hlook'
  | .error _ => isFalse fun ⟨_, _, hlook', _⟩ => nomatch hlook.symm.trans hlook'

/-- Three layers with a data file of a package at the same path. Those of the first layer and the last one have the
same size and time. -/
def threeLayersRoot : Root :=
  ⟨"/x", [
    .opened (.ofFiles "a" 1 [("pkg/__init__.py", .empty), ("pkg/d.txt", "1".toUTF8)]) none,
    .opened (.ofFiles "b" 1 [("pkg/d.txt", "22".toUTF8)]) none,
    .opened (.ofFiles "c" 1 [("pkg/d.txt", "3".toUTF8)]) none], [], 1⟩

/-- The importer of these layers. -/
def threeLayers : Importer := .new [threeLayersRoot] Layout.standard fun _ _ => .ok ()

/-- The example begins with a directory that does not exist, and with nothing remembered. -/
theorem threeLayers_begins : threeLayers.Begins .memory (fun _ => ["x"]) none (.ofTree .empty) :=
  begins_alone rfl (by decide) (by decide)

/-- What was asked for: the package, whose data files are unpacked from every layer. -/
def threeLayersUnpacked : ImporterState :=
  threeLayers.after .memory (.ofWorkspace (.ofTree .empty)) [.resolve "pkg"]

/-- **The last layer's file is handed out in place of the first one's.** -/
theorem threeLayers_disagree : threeLayers.Begins .memory (fun _ => ["x"]) none (.ofTree .empty) ∧
    ∃ s', (threeLayers.makeDataArtifact "pkg/d.txt").outcome threeLayersUnpacked = (.ok "/x/pkg/d.txt", s') ∧
      ¬ threeLayers.Agrees s'.workspace "pkg/d.txt" "/x/pkg/d.txt" := by
  have hrun : ((threeLayers.makeDataArtifact "pkg/d.txt").outcome threeLayersUnpacked).1 = .ok "/x/pkg/d.txt" ∧
      ¬ threeLayers.Agrees ((threeLayers.makeDataArtifact "pkg/d.txt").outcome threeLayersUnpacked).2.workspace
        "pkg/d.txt" "/x/pkg/d.txt" := by decide +kernel
  exact ⟨threeLayers_begins, _, outcome_eq_of_fst hrun.1, hrun.2⟩

/-- The same file agrees when it is the first that is asked for. -/
theorem threeLayers_agrees_iff : threeLayers.Begins .memory (fun _ => ["x"]) none (.ofTree .empty) ∧
    ∃ s', (threeLayers.makeDataArtifact "pkg/d.txt").outcome
        (threeLayers.after .memory (.ofWorkspace (.ofTree .empty)) []) = (.ok "/x/pkg/d.txt", s') ∧
      threeLayers.Agrees s'.workspace "pkg/d.txt" "/x/pkg/d.txt" ∧
      ¬ threeLayers.Masked (.ofTree .empty) "pkg/d.txt" "/x/pkg/d.txt" ∧ ¬ threeLayers.Oversized "pkg/d.txt" := by
  have hmake : (threeLayers.makeDataArtifact "pkg/d.txt").outcome
      (threeLayers.after .memory (.ofWorkspace (.ofTree .empty)) []) = (.ok "/x/pkg/d.txt", _) :=
    outcome_eq_of_fst (by decide +kernel)
  have hagrees : threeLayers.Agrees ((threeLayers.makeDataArtifact "pkg/d.txt").outcome
      (threeLayers.after .memory (.ofWorkspace (.ofTree .empty)) [])).2.workspace "pkg/d.txt" "/x/pkg/d.txt" := by
    decide +kernel
  exact ⟨threeLayers_begins, _, hmake, hagrees, (agrees_iff_not_masked threeLayers_begins [] hmake).1 hagrees⟩

end Importer

end LayeredBundles
