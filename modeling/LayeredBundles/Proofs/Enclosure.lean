import LayeredBundles.Proofs.Loading
import LayeredBundles.Proofs.Straight
import LayeredBundles.Proofs.UnitFiles

/-! # Nothing escapes the extraction directory

Names come from bundles, from binaries and from requests, and none of them is trusted. On a tree without links all that
an importer does, at every moment and however it ends, stays strictly below the extraction directory of the root it is
about. Besides, the directory itself is made and removed, what it stands below is made where it is missing, and a
check keeps a lock file beside it and the file of its store.

* **`Permission.Grants`** — a permission for what is strictly below a directory, and for making that directory;
* **`Extraction.makeArtifact_obeys`**, **`Root.checkBuild_obeys`** — artifacts and checks obey such permissions;
* **`Importer.Request.Concerns`** — the root a request is about; **`Request.Permits`** is what it may change;
* **`Importer.nothing_escapes`** — every change on the way is permitted, and the host is handed nothing else;
* **`Importer.start_cases`** — a start is a check of all roots by the importer that it has made, or it changes nothing;
  so it is one of the requests that are spoken of here and in the modules that follow. -/

namespace LayeredBundles

open DiskPath FileTree Fallible

/-! ## (1) Paths below a directory -/

namespace FileTree

variable {P : Permission} {base : Place} {dir dest front : String} {names : List String} {name : String}

/-- `P.Grants base dir`: covered are all changes strictly below a directory, and the making of that directory and of
what it stands below. -/
structure Permission.Grants (P : Permission) (base : Place) (dir : String) : Prop where
  /-- Strictly below. -/
  below : ∀ v, isBelow (placeFrom base dir) v = true → P.Owns v
  /-- The directory and what it stands below. -/
  above : ∀ v, Above base dir v → P.Makes v

/-- **A path of names below a directory** names a place strictly below the place of the directory. -/
theorem Inside.placeFrom_eq (h : Inside dir names name dest) (base : Place) :
    placeFrom base dest = placeFrom base dir ++ names ++ [name] := by
  have hnames : ∀ s ∈ names ++ [name], s ≠ ".." := fun s hs => (h.isName s hs).up
  rw [placeFrom, h.steps_eq, walk_append, walk_names hnames, startFrom, h.isAbsolute_eq, List.append_assoc]
  rfl

/-- What is below what is below a place is below that place. -/
theorem isBelow_trans {p q v : Place} (hq : FileTree.isBelow p q = true) (hv : FileTree.isBelow q v = true) :
    FileTree.isBelow p v = true := by
  obtain ⟨hpq, hne⟩ := isBelow_iff.1 hq
  obtain ⟨hqv, -⟩ := isBelow_iff.1 hv
  exact isBelow_iff.2 ⟨hpq.trans hqv, fun heq => hne (hpq.eq_of_length_le (heq ▸ hqv.length_le)).symm⟩

/-- A path of names below a directory leads strictly below it. -/
theorem Inside.isBelow (h : Inside dir names name dest) (base : Place) :
    FileTree.isBelow (placeFrom base dir) (placeFrom base dest) = true := by
  rw [h.placeFrom_eq]
  exact isBelow_inside _ _ _

/-- Such a path may be changed in any way. -/
theorem Permission.Grants.owns (h : P.Grants base dir) (hdest : Inside dir names name dest) :
    P.Owns (placeFrom base dest) := h.below _ (hdest.isBelow base)

/-- The directory in which such a path stands may be made, and all that it stands below. -/
theorem Permission.Grants.makes (h : P.Grants base dir) (hdest : Inside dir names name dest)
    (hfront : parent? dest = some front) : ∀ v, Above base front v → P.Makes v := by
  rintro v ⟨xs, hxs, rfl⟩
  obtain ⟨front', hfront', hsteps, habs⟩ := exists_parent (hdest.steps_eq.trans (List.append_assoc _ _ _).symm)
  cases hfront'.symm.trans hfront
  have hstart : startFrom base front = startFrom base dir := by
    rw [startFrom, startFrom, habs, hdest.isAbsolute_eq]
  rw [hstart]
  rw [hsteps] at hxs
  -- Some of the steps end in the path of the directory or at its end, and the others below it.
  rcases List.prefix_or_prefix_of_prefix hxs (List.prefix_append (steps dir) names) with hup | ⟨ys, rfl⟩
  · exact h.above _ ⟨xs, hup, rfl⟩
  · have hys : ys <+: names := (List.prefix_append_right_inj _).1 hxs
    have hnames : ∀ s ∈ ys, s ≠ ".." := fun s hs => (hdest.isName s (List.mem_append_left _ (hys.subset hs))).up
    rw [walk_append, walk_names hnames]
    rcases List.eq_nil_or_concat ys with rfl | ⟨zs, s, rfl⟩
    · rw [List.append_nil]
      exact h.above _ (above_self base dir)
    · refine (h.below _ (isBelow_iff.2 ⟨List.prefix_append _ _, fun heq => ?_⟩)).makes
      have hlength := congrArg List.length heq
      simp at hlength

end FileTree

/-! ## (2) Artifacts -/

namespace Extraction

open Workspace

variable {P : Permission} {w₀ : Workspace} {dir dest temporary : String} {names : List String} {name hidden : String}

/-- Writing an entry to a hidden path below the directory obeys what the directory is granted. -/
theorem writeEntry_obeys (hgrants : P.Grants w₀.tree.base dir) (hdest : Inside dir names hidden temporary)
    (l : Layer) (e : Entry) : (writeEntry l e temporary).Preserves (Obeys P w₀) := by
  have howns := hgrants.owns hdest
  unfold writeEntry
  rcases l.writeOut e.path with ⟨out, r⟩
  refine ((write_obeys howns out).failingAs _).bind fun _ => (preserves_ofExcept _).bind fun _ => ?_
  exact (change_obeys fun _ _ ht hbase hok => ht.stamp_alters (hbase ▸ howns) hok).failingAs _

/-- So does moving it into place, however often that is tried. -/
theorem moveIntoPlace_obeys (hgrants : P.Grants w₀.tree.base dir) (hdest : Inside dir names name dest)
    (htemporary : Inside dir names hidden temporary) : (moveIntoPlace temporary dest).Preserves (Obeys P w₀) := by
  have howns := hgrants.owns htemporary
  have hlast : (moveOrDiscard temporary dest).Preserves (Obeys P w₀) := by
    unfold moveOrDiscard
    refine (move_obeys (hgrants.owns hdest) howns).attempt.bind fun r => ?_
    split
    · exact preserves_pure ()
    · exact (discard_obeys howns).bind fun _ => preserves_throw _
  have hbelow : ∀ v, isBelow (placeFrom w₀.tree.base dest) v = true → P.Owns v := fun v hv =>
    hgrants.below v (isBelow_trans (hdest.isBelow _) hv)
  unfold moveIntoPlace
  refine preserves_get.bind fun w => ?_
  dsimp only
  split
  · exact ((removeDirectories_obeys (hgrants.owns hdest) hbelow).failingAs _).bind fun _ => hlast
  · exact hlast

/-- So does producing the whole artifact. -/
theorem produce_obeys {l : Layer} {e : Entry} (hgrants : P.Grants w₀.tree.base dir)
    (hdest : Inside dir names name dest) (hname : e.name = name) : (produce l e dest).Preserves (Obeys P w₀) := by
  obtain ⟨front, hfront, -, -⟩ := exists_parent (hdest.steps_eq.trans (List.append_assoc _ _ _).symm)
  intro w hw
  unfold produce
  simp only [hfront, hname]
  refine Yields.bind (P := fun _ w₁ => Obeys P w₀ w₁)
    (createDirectories_obeys (hgrants.makes hdest hfront) w hw) ?_ fun _ _ h => h
  intro _ w₁ h₁
  refine Yields.bind (P := fun r w₂ => Obeys P w₀ w₂ ∧
    r = .ok (DiskPath.join front (temporaryName name w₁.process w₁.serial))) ?_ ?_ fun _ _ h => h.1
  · exact ⟨h₁.congr rfl rfl, rfl⟩
  rintro _ w₂ ⟨h₂, ⟨⟩⟩
  have htemporary := inside_temporary hdest hfront w₁.process w₁.serial
  refine ((writeEntry_obeys hgrants htemporary l e).attempt.bind fun r => ?_) w₂ h₂
  split
  · exact moveIntoPlace_obeys hgrants hdest htemporary
  · exact (discard_obeys (hgrants.owns htemporary)).bind fun _ => preserves_throw _

/-- **Making an artifact** changes nothing but what is strictly below the directory, at every moment. -/
theorem makeArtifact_obeys (hgrants : P.Grants w₀.tree.base dir) (l : Layer) (path : String) :
    (makeArtifact dir l path).Preserves (Obeys P w₀) := by
  unfold makeArtifact
  refine Preserves.ofExcept_bind fun e hentry => ?_
  cases hdir : e.isDir with
  | true =>
    simp only [↓reduceIte]
    exact preserves_throw _
  | false =>
    simp only [Bool.false_eq_true, ↓reduceIte]
    refine Preserves.ofExcept_bind fun dest hdest => preserves_get.bind fun w => ?_
    obtain ⟨names, name, htarget⟩ := exists_target (mapError_eq_ok.1 hentry) hdir hdest
    split
    · exact preserves_pure _
    · exact (produce_obeys hgrants htarget.inside htarget.name_eq).bind fun _ => preserves_pure _

/-- Removing an extraction directory. -/
theorem removeAll_obeys (hgrants : P.Grants w₀.tree.base dir) (hself : P.Owns (placeFrom w₀.tree.base dir)) :
    (removeAll dir).Preserves (Obeys P w₀) :=
  preserves_removeAll (removeDirectories_obeys hself hgrants.below)

/-- The files of an extraction directory stand strictly below it, or in its stead. -/
theorem place_of_mem_filesIn {t : FileTree} (h : t.LinkFree) {f : Place × String} (hf : f ∈ filesIn t dir) :
    f.1 = placeFrom t.base dir ∨ isBelow (placeFrom t.base dir) f.1 = true := by
  unfold filesIn at hf
  split at hf
  · next hlocate =>
    cases List.mem_singleton.1 hf
    exact .inl (h.locate_eq hlocate)
  · next hlocate =>
    rw [← h.locate_eq hlocate]
    obtain ⟨n, hn, hsome⟩ := List.mem_filterMap.1 hf
    split at hsome
    · cases hsome
      exact .inr (List.mem_filter.1 hn).2
    · cases hsome
  · cases hf

/-- Removing temporary files obeys what the directory is granted. -/
theorem removeTemporaries_obeys (hgrants : P.Grants w₀.tree.base dir) (hself : P.Owns (placeFrom w₀.tree.base dir)) :
    (removeTemporaries dir).Preserves (Obeys P w₀) := by
  intro w hw
  unfold removeTemporaries
  rw [yields_get_bind]
  refine hw.withTree (hw.plain.alters_unbindAll fun f hf => ?_)
  rcases place_of_mem_filesIn hw.plain (List.mem_filter.1 hf).1 with heq | hbelow
  · exact heq ▸ hw.base ▸ hself
  · exact hgrants.below _ (hw.base ▸ hbelow)

end Extraction

/-! ## (3) Locks and stores -/

section Check

variable {P : Permission} {w₀ : Workspace} {dir : String}

/-- Taking a lock changes its file at most. -/
theorem Lock.take_obeys {path : String} (hpath : P.Owns (placeFrom w₀.tree.base path)) (timeout : Nat) :
    (Lock.take path timeout).Preserves (Workspace.Obeys P w₀) := by
  intro w hw
  rw [Yields, Lock.take, outcome_ofOutcome]
  split
  · exact hw
  · next p t hfile =>
    have ht := hw.withTree (hw.plain.ensureFile_alters (hw.base ▸ hpath) hfile)
    dsimp only
    split
    · exact ht
    · exact ht.congr rfl rfl

/-- **Taking a lock** makes the lock file, and what the directory stands below. -/
theorem Lock.acquire_obeys (habove : ∀ v, Above w₀.tree.base dir v → P.Makes v)
    (hlock : ∀ path, Lock.path dir = .ok path → P.Owns (placeFrom w₀.tree.base path)) (timeout : Nat) :
    (Lock.acquire dir timeout).Preserves (Workspace.Obeys P w₀) := by
  unfold Lock.acquire
  refine Preserves.ofExcept_bind fun path hpath => ?_
  have htake := Lock.take_obeys (hlock path hpath) timeout
  split
  · next front hfront =>
    refine ((Workspace.createDirectories_obeys fun v hv => habove v ?_).failingAs _).bind fun _ => htake
    -- The lock file stands beside the directory, so what the one stands below the other does.
    obtain ⟨xs, name, -, hdir, hsteps, habs, -⟩ := Lock.exists_of_path hpath
    obtain ⟨front', hfront', hxs, hfrontabs⟩ := exists_parent hsteps
    cases hfront'.symm.trans hfront
    exact hv.of_front (by rw [hxs, hdir]; exact List.prefix_append _ _) (hfrontabs.trans habs)
  · exact (preserves_pure ()).bind fun _ => htake

/-- The places of the files that a store writes: its own, and the one under which it is written. -/
def RecordStore.Writes (store : RecordStore) (base : Place) (process : Nat) (v : Place) : Prop :=
  ∃ path name, store = .file path ∧ fileName? path = some name ∧
    (v = placeFrom base path ∨ v = placeFrom base (join (directory path) (temporaryName name process)))

/-- The places of the directory of a store, and of all that it stands below. -/
def RecordStore.StandsIn (store : RecordStore) (base : Place) (v : Place) : Prop :=
  ∃ path, store = .file path ∧ Above base (directory path) v

/-- Reading the records changes nothing. -/
theorem RecordStore.readRecords_obeys (path : String) : (readRecords path).Preserves (Workspace.Obeys P w₀) := by
  unfold readRecords Workspace.read
  refine (Workspace.ask_obeys _).attempt.bind fun r => ?_
  split
  · exact preserves_pure _
  · exact preserves_pure _
  · exact preserves_throw _

/-- Nor does asking a store. -/
theorem RecordStore.get_obeys (store : RecordStore) (root : String) :
    (store.get root).Preserves (Workspace.Obeys P w₀) := by
  cases store with
  | memory => exact preserves_get.bind fun _ => preserves_pure _
  | file path => exact (readRecords_obeys path).bind fun _ => preserves_pure _

/-- **Keeping a record** writes the files of the store, and makes the directories they stand in. -/
theorem RecordStore.put_obeys {store : RecordStore} (hfiles : ∀ v, store.Writes w₀.tree.base w₀.process v → P.Owns v)
    (hdirs : ∀ v, store.StandsIn w₀.tree.base v → P.Makes v) (root : String) (record : BuildRecord) :
    (store.put root record).Preserves (Workspace.Obeys P w₀) := by
  cases store with
  | memory => exact preserves_modify fun w hw => hw.congr rfl rfl
  | file path =>
    refine (readRecords_obeys path).bind fun records => ?_
    have hmake : (Workspace.createDirectories (directory path)).Preserves (Workspace.Obeys P w₀) :=
      Workspace.createDirectories_obeys fun v hv => hdirs v ⟨path, rfl, hv⟩
    unfold writeRecords
    refine (hmake.failingAs _).bind fun _ => ?_
    split
    · exact preserves_throw _
    · next name hname =>
      -- The name of the second file holds the number of the process, which is that of the first workspace.
      intro w hw
      rw [yields_get_bind]
      have hself : P.Owns (placeFrom w₀.tree.base path) := hfiles _ ⟨path, name, rfl, hname, .inl rfl⟩
      have htemporary : P.Owns (placeFrom w₀.tree.base (join (directory path) (temporaryName name w.process))) :=
        hfiles _ ⟨path, name, rfl, hname, .inr (by rw [hw.process])⟩
      refine (Preserves.attempt ?_).bind (fun r => ?_) w hw
      · exact (Workspace.write_obeys htemporary _).bind fun _ => Workspace.move_obeys hself htemporary
      · split
        · exact preserves_pure _
        · exact (Workspace.discard_obeys htemporary).bind fun _ => preserves_throw _

/-- **A check** changes the directory, its lock file and the files of the store, and makes what these stand in. -/
theorem Root.checkBuild_obeys {r : Root} {store : RecordStore} (hgrants : P.Grants w₀.tree.base r.dir)
    (hself : P.Owns (placeFrom w₀.tree.base r.dir))
    (hlock : ∀ path, Lock.path r.dir = .ok path → P.Owns (placeFrom w₀.tree.base path))
    (hfiles : ∀ v, store.Writes w₀.tree.base w₀.process v → P.Owns v)
    (hdirs : ∀ v, store.StandsIn w₀.tree.base v → P.Makes v) :
    (r.checkBuild store).Preserves (Root.Has (Workspace.Obeys P w₀)) := by
  have hrelease : ∀ ticket, (modify fun s => { s with workspace := Lock.release ticket s.workspace } :
      RootWork PUnit).Preserves (Root.Has (Workspace.Obeys P w₀)) := fun ticket =>
    preserves_modify fun s hs => Workspace.Obeys.congr hs rfl rfl
  have hforget : (modify fun s => { s with extracted := [] } : RootWork PUnit).Preserves
      (Root.Has (Workspace.Obeys P w₀)) := preserves_modify fun s hs => hs
  have hput := RecordStore.put_obeys hfiles hdirs r.dir
  unfold checkBuild holdingLock
  refine (preserves_ofWork ((Lock.acquire_obeys hgrants.above hlock _).failingAs _)).bind fun ticket => ?_
  refine (Preserves.attempt ?_).bind fun out => (hrelease ticket).bind fun _ => preserves_ofExcept _
  refine (preserves_ofWork ((RecordStore.get_obeys store r.dir).failingAs _)).bind fun record => ?_
  dsimp only
  split
  · exact (preserves_ofWork (Extraction.removeTemporaries_obeys hgrants hself)).bind fun _ => preserves_pure _
  · refine (preserves_ofWork (Extraction.removeAll_obeys hgrants hself)).bind fun _ => hforget.bind fun _ => ?_
    refine preserves_get.bind fun s => ?_
    exact (preserves_ofWork ((hput _).failingAs _)).bind fun _ => preserves_pure _

end Check

/-! ## (4) What the host is handed -/

/-- `Hands G before after`: of the calls that were added, those for files are for files of which `G` holds. -/
def HostCall.Hands (G : String → Prop) (before after : List HostCall) : Prop :=
  ∃ new, after = new ++ before ∧ ∀ p, .path p ∈ new → G p

/-- Without a call nothing is handed over. -/
theorem HostCall.Hands.refl (G : String → Prop) (calls : List HostCall) : Hands G calls calls :=
  ⟨[], rfl, fun _ hp => absurd hp List.not_mem_nil⟩

/-- A path that may be handed over may be the next one. -/
theorem HostCall.Hands.cons {G : String → Prop} {before after : List HostCall} (h : Hands G before after)
    {path : String} (hpath : G path) : Hands G before (.path path :: after) := by
  obtain ⟨new, hnew, hG⟩ := h
  refine ⟨.path path :: new, by rw [hnew, List.cons_append], fun p hp => ?_⟩
  rcases List.mem_cons.1 hp with heq | hp
  · cases heq
    exact hpath
  · exact hG p hp

/-- Loading what a file needs hands over only what is located. -/
theorem Loader.preserves_hands {host : Host} {locator : Locator} {G : String → Prop} {before : List HostCall}
    (h : ∀ name w copy w', (locator.locate name).outcome w = (.ok (some copy), w') → G copy) (path : String) :
    (loadNeeds host locator path).Preserves fun s => HostCall.Hands G before s.calls := by
  rintro s ⟨new, hnew, hG⟩
  obtain ⟨added, hadded⟩ := (finishes_loadNeeds host locator path s).exists_extends
  refine ⟨added.map Attempt.call ++ new, by rw [hadded.calls, hnew, List.append_assoc], fun p hp => ?_⟩
  rcases List.mem_append.1 hp with hp | hp
  · obtain ⟨a, ha, hcall⟩ := List.mem_map.1 hp
    obtain ⟨t, ht⟩ := hadded.found a ha
    -- A file that is handed over is the copy that was found for an attempt.
    have hfound : a.found = some p := by
      unfold Attempt.call at hcall
      cases hf : a.found with
      | none => rw [hf] at hcall; cases hcall
      | some copy => rw [hf] at hcall; cases hcall; rfl
    rw [hfound] at ht
    by_cases hname : a.name ∈ locator.names
    · rw [locate_run_of_mem hname] at ht
      rcases hout : ((locator.locate a.name).outcome t.workspace).1 with _ | _ | copy
      · rw [hout] at ht; cases ht
      · rw [hout] at ht; cases ht
      · rw [hout] at ht; cases ht
        exact h _ _ _ _ (outcome_eq_of_fst hout)
    · rw [locate_run_of_notMem hname] at ht
      cases ht
  · exact hG p hp

/-- An artifact stands strictly below the directory. -/
theorem Extraction.isBelow_of_ok {l : Layer} {dir path dest : String} {w w' : Workspace}
    (h : (makeArtifact dir l path).outcome w = (.ok dest, w')) (base : Place) :
    isBelow (placeFrom base dir) (placeFrom base dest) = true := by
  obtain ⟨names, name, e, htarget⟩ := exists_target_of_ok h
  exact htarget.inside.isBelow base

/-- So does a bundled library that was located. -/
theorem Root.isBelow_of_locateLibrary {r : Root} {dirs : List String} {name copy : String} {w w' : Workspace}
    (h : (r.locateLibrary dirs name).outcome w = (.ok (some copy), w')) (base : Place) :
    isBelow (placeFrom base r.dir) (placeFrom base copy) = true := by
  unfold locateLibrary at h
  split at h
  · cases h
  · next l path hfind =>
    obtain ⟨dest, w₁, hmake, h⟩ := exists_of_outcome_bind_ok h
    cases h
    exact Extraction.isBelow_of_ok hmake base

/-! ## (5) Requests -/

namespace Importer

open HostCall (Hands)

variable {m : Importer} {store : RecordStore} {base : Place} {process : Nat} {q : Request} {r : Root}

namespace Request

/-- `q.Concerns m r`: the roots that a request is about. A name is about the first root that holds it, a data file
about the root it is taken from, a binary about the root at its position, and a check about all of them. -/
def Concerns (m : Importer) : Request → Root → Prop
  | .resolve name, r => holder? m.layout name m.roots = some r
  | .makeData path, r => ∃ i j, m.locateData path = .ok (r, i, j)
  | .readData _, _ => False
  | .prepare u, r => m.root u.rootIndex = .ok r
  | .load u, r => m.root u.rootIndex = .ok r
  | .checkBuilds, r => r ∈ m.roots

/-- The files beside extraction directories that a check changes: their lock files and the files of the store. -/
def Beside (m : Importer) (store : RecordStore) (base : Place) (process : Nat) (v : Place) : Prop :=
  store.Writes base process v ∨ ∃ r ∈ m.roots, ∃ path, Lock.path r.dir = .ok path ∧ v = placeFrom base path

/-- What a request may change. It makes no links. -/
inductive Permits (m : Importer) (store : RecordStore) (base : Place) (process : Nat) (q : Request) : Permission where
  /-- What is strictly below the directory of a root that it is about. -/
  | below {r : Root} {v : Place} {old new : Option Node} (hr : q.Concerns m r)
      (hv : isBelow (placeFrom base r.dir) v = true) (hnew : ∀ target, new ≠ some (.link target)) :
      Permits m store base process q v old new
  /-- Such a directory, and what it stands below, is made where nothing is. -/
  | above {r : Root} {v : Place} (hr : q.Concerns m r) (hv : Above base r.dir v) :
      Permits m store base process q v none (some .directory)
  /-- A check changes such a directory itself. -/
  | itself {r : Root} {old new : Option Node} (hq : q = .checkBuilds) (hr : q.Concerns m r)
      (hnew : ∀ target, new ≠ some (.link target)) : Permits m store base process q (placeFrom base r.dir) old new
  /-- A check keeps files beside it. -/
  | beside {v : Place} {old new : Option Node} (hq : q = .checkBuilds) (hv : Beside m store base process v)
      (hnew : ∀ target, new ≠ some (.link target)) : Permits m store base process q v old new
  /-- A check makes the directory of the store, and what it stands below, where nothing is. -/
  | keeping {v : Place} (hq : q = .checkBuilds) (hv : store.StandsIn base v) :
      Permits m store base process q v none (some .directory)

/-- The host may be handed what is strictly below the directory of a root that the request is about. -/
def HandsOver (m : Importer) (base : Place) (q : Request) (path : String) : Prop :=
  ∃ r, q.Concerns m r ∧ isBelow (placeFrom base r.dir) (placeFrom base path) = true

/-- A request is about roots of the importer. -/
theorem mem_of_concerns (h : q.Concerns m r) : r ∈ m.roots := by
  cases q with
  | resolve name => exact mem_of_holder? h
  | makeData path =>
    obtain ⟨i, j, hlocate⟩ := h
    exact List.mem_of_getElem? (first?_of_locateData hlocate).1
  | readData path => cases h
  | prepare u => exact List.mem_of_getElem? (root_eq_ok.1 h)
  | load u => exact List.mem_of_getElem? (root_eq_ok.1 h)
  | checkBuilds => exact h

/-- A request that concerns a root may do what is granted below its directory. -/
theorem Permits.grants (hr : q.Concerns m r) : (q.Permits m store base process).Grants base r.dir :=
  ⟨fun _ hv _ _ hnew => .below hr hv hnew, fun _ hv => .above hr hv⟩

end Request

/-- What is done to the files of a root is done to no calls. -/
theorem preserves_onRoot_calls {α : Type} {C : List HostCall → Prop} (i : Nat) (a : RootWork α) :
    (Importing.onRoot i a).Preserves fun s => C s.calls := fun _ hs => hs

section Files

variable {I : Workspace → Prop}

/-- Preparing a binary preserves what the artifacts of its root preserve. -/
theorem prepareBinary_preserves {u : FoundUnit}
    (h : ∀ r, m.root u.rootIndex = .ok r → ∀ l path, (Extraction.makeArtifact r.dir l path).Preserves I) :
    (m.prepareBinary u).Preserves (Has I) := by
  refine preserves_prepareBinary (fun r hr => preserves_onRoot (Root.preserves_makeArtifact fun l _ => ?_))
    fun r path hr => preserves_needs (fun name => Root.preserves_locateLibrary fun l path _ => ?_) path
  · exact h r hr l u.path
  · exact h r hr l path

/-- **A request** preserves what the artifacts of roots it is about preserve, and their checks if it is to check. -/
theorem Request.preserves_perform
    (hartifact : ∀ r, q.Concerns m r → ∀ l path, (Extraction.makeArtifact r.dir l path).Preserves I)
    (hcheck : q = .checkBuilds → ∀ r ∈ m.roots, (r.checkBuild store).Preserves (Root.Has I)) :
    (q.perform m store).Preserves (Has I) := by
  unfold Request.perform
  cases q with
  | resolve name =>
    refine (preserves_resolve fun r hr i hit _ => preserves_onRoot ?_).bind fun _ => preserves_pure _
    exact Hit.preserves_realize (fun l _ path _ => hartifact r hr l.2 path) fun l _ => hartifact r hr l hit.path
  | makeData path =>
    refine (preserves_makeDataArtifact fun r i j hlocate => preserves_onRoot ?_).bind fun _ => preserves_pure _
    exact Root.preserves_makeArtifact fun l _ => hartifact r ⟨i, j, hlocate⟩ l path
  | readData path => exact (preserves_ofExcept _).bind fun _ => preserves_pure _
  | prepare u => exact (prepareBinary_preserves hartifact).bind fun _ => preserves_pure _
  | load u => exact (preserves_loadBinary (prepareBinary_preserves hartifact)).bind fun _ => preserves_pure _
  | checkBuilds =>
    exact (preserves_checkBuilds fun r hr i => preserves_onRoot (hcheck rfl r hr)).bind fun _ => preserves_pure _

/-- **A request** changes what it may change. -/
theorem Request.perform_obeys (m : Importer) (store : RecordStore) (q : Request) (w₀ : Workspace) :
    (q.perform m store).Preserves (Has (Workspace.Obeys (q.Permits m store w₀.tree.base w₀.process) w₀)) := by
  refine preserves_perform (fun r hr => Extraction.makeArtifact_obeys (Permits.grants hr)) ?_
  rintro rfl r hr
  refine Root.checkBuild_obeys (Permits.grants hr) (fun _ _ hnew => .itself rfl hr hnew) (fun path hpath => ?_)
    (fun v hv _ _ hnew => .beside rfl (.inl hv) hnew) fun v hv => .keeping rfl hv
  exact fun _ _ hnew => .beside rfl (.inr ⟨r, hr, path, hpath, rfl⟩) hnew

end Files

/-- The artifact of a binary that was prepared stands strictly below the directory of its root. -/
theorem isBelow_of_prepareBinary {u : FoundUnit} {s s' : ImporterState} {dest : String}
    (h : (m.prepareBinary u).outcome s = (.ok dest, s')) (base : Place) :
    ∃ r, m.root u.rootIndex = .ok r ∧ isBelow (placeFrom base r.dir) (placeFrom base dest) = true := by
  obtain ⟨r, l, w, hr, -, hmake, -⟩ := exists_of_prepareBinary h
  exact ⟨r, hr, Extraction.isBelow_of_ok hmake base⟩

/-- Before a binary is loaded, the host is handed nothing but paths below the directory of its root. -/
theorem prepareBinary_hands {u : FoundUnit} {G : String → Prop} {before : List HostCall}
    (h : ∀ r, m.root u.rootIndex = .ok r →
      ∀ path, isBelow (placeFrom base r.dir) (placeFrom base path) = true → G path) :
    (m.prepareBinary u).Preserves fun s => Hands G before s.calls := by
  refine preserves_prepareBinary (fun r _ => preserves_onRoot_calls _ _) fun r path hr => ?_
  have hneeds : (Loader.loadNeeds m.host (m.locator r) path).Preserves fun s => Hands G before s.calls :=
    Loader.preserves_hands (fun name w copy w' hcopy => h r hr copy (Root.isBelow_of_locateLibrary hcopy base)) path
  exact Preserves.onto (hneeds.failingAs _) (fun _ hs => hs) fun _ _ _ hs => hs

/-- Loading a binary hands over, besides, the artifact of the binary. -/
theorem loadBinary_hands {u : FoundUnit} {G : String → Prop} {before : List HostCall}
    (h : ∀ r, m.root u.rootIndex = .ok r →
      ∀ path, isBelow (placeFrom base r.dir) (placeFrom base path) = true → G path) :
    (m.loadBinary u).Preserves fun s => Hands G before s.calls := by
  intro s hs
  unfold loadBinary
  have hprepare : (m.prepareBinary u).Yields s fun out s' =>
      Hands G before s'.calls ∧ ∀ path, out = .ok path → G path := by
    refine ⟨prepareBinary_hands h s hs, fun path hpath => ?_⟩
    obtain ⟨r, hr, hbelow⟩ := isBelow_of_prepareBinary (outcome_eq_of_fst hpath) base
    exact h r hr path hbelow
  refine hprepare.bind (fun path s₁ h₁ => ?_) fun _ _ h₁ => h₁.1
  -- Only when the binary was prepared is its artifact handed over.
  have hasked := h₁.1.cons (h₁.2 path rfl)
  refine Yields.bind (P := fun _ s₂ => Hands G before s₂.calls) hasked (fun verdict s₂ h₂ => ?_) fun _ _ h₂ => h₂
  cases verdict with
  | ok => exact h₂
  | error reason => exact h₂

/-- **A request** hands over what it may hand over. -/
theorem Request.perform_hands (m : Importer) (store : RecordStore) (q : Request) (base : Place)
    (before : List HostCall) : (q.perform m store).Preserves fun s => Hands (q.HandsOver m base) before s.calls := by
  unfold Request.perform
  cases q with
  | resolve name =>
    exact (preserves_resolve fun r _ i hit _ => preserves_onRoot_calls _ _).bind fun _ => preserves_pure _
  | makeData path =>
    exact (preserves_makeDataArtifact fun r i j _ => preserves_onRoot_calls _ _).bind fun _ => preserves_pure _
  | readData path => exact (preserves_ofExcept _).bind fun _ => preserves_pure _
  | prepare u => exact (prepareBinary_hands fun r hr path hpath => ⟨r, hr, hpath⟩).bind fun _ => preserves_pure _
  | load u => exact (loadBinary_hands fun r hr path hpath => ⟨r, hr, hpath⟩).bind fun _ => preserves_pure _
  | checkBuilds =>
    exact (preserves_checkBuilds fun r _ i => preserves_onRoot_calls _ _).bind fun _ => preserves_pure _

/-- Requests make no links, move no relative path and are made by one process. -/
theorem after_plain (m : Importer) (store : RecordStore) {s : ImporterState} (hplain : s.workspace.tree.LinkFree)
    (qs : List Request) :
    (m.after store s qs).workspace.tree.LinkFree ∧
      (m.after store s qs).workspace.tree.base = s.workspace.tree.base ∧
      (m.after store s qs).workspace.process = s.workspace.process := by
  induction qs generalizing s with
  | nil => exact ⟨hplain, rfl, rfl⟩
  | cons q qs ih =>
    have hq := Request.perform_obeys m store q s.workspace s (Workspace.Obeys.refl _ hplain)
    obtain ⟨hplain', hbase, hprocess⟩ := ih hq.plain
    exact ⟨hplain', hbase.trans hq.base, hprocess.trans hq.process⟩

/-- **Nothing escapes.** Where there are no links, all that a request changes after any others, at every moment and
however it ends, is strictly below the directory of a root it is about; or it makes such a directory and what that
stands below; or it checks builds, and changes the directory, its lock file, or the files of the store and what they
stand in. The host is handed nothing that is not strictly below such a directory. -/
theorem nothing_escapes (m : Importer) (store : RecordStore) {s : ImporterState} (hplain : s.workspace.tree.LinkFree)
    (qs : List Request) (q : Request) :
    Workspace.Obeys (q.Permits m store s.workspace.tree.base s.workspace.process) (m.after store s qs).workspace
        (m.after store s (qs ++ [q])).workspace ∧
      Hands (q.HandsOver m s.workspace.tree.base) (m.after store s qs).calls (m.after store s (qs ++ [q])).calls := by
  obtain ⟨hplain', hbase, hprocess⟩ := after_plain m store hplain qs
  have hafter : m.after store s (qs ++ [q]) = ((q.perform m store).outcome (m.after store s qs)).2 := by
    rw [after, List.foldl_append]
    rfl
  rw [hafter]
  refine ⟨?_, Request.perform_hands m store q _ _ _ (.refl _ _)⟩
  have hobeys := Request.perform_obeys m store q _ (m.after store s qs) (Workspace.Obeys.refl _ hplain')
  rw [hbase, hprocess] at hobeys
  exact hobeys

/-- Where a binary and its library are extracted and loaded, both are handed to the host. -/
theorem withLibrary_enclosed : FileTree.empty.LinkFree ∧
    Workspace.Obeys ((Request.load (withLibraryUnit "/x")).Permits (withLibrary "/x") .memory [] 1)
        ((withLibrary "/x").after .memory (.ofWorkspace (.ofTree .empty)) [.resolve "m"]).workspace
        ((withLibrary "/x").after .memory (.ofWorkspace (.ofTree .empty))
          [.resolve "m", .load (withLibraryUnit "/x")]).workspace ∧
    ((withLibrary "/x").after .memory (.ofWorkspace (.ofTree .empty))
      [.resolve "m", .load (withLibraryUnit "/x")]).calls = [.path "/x/m.so", .path "/x/lib/libz.so"] ∧
    (Request.load (withLibraryUnit "/x")).HandsOver (withLibrary "/x") [] "/x/lib/libz.so" := by
  have hplain : FileTree.empty.LinkFree := by
    intro v target hlink
    by_cases hv : v = []
    · subst hv
      cases hlink
    · simp [node?, FileTree.empty, hv] at hlink
  have hcalls : ((withLibrary "/x").after .memory (.ofWorkspace (.ofTree .empty))
      [.resolve "m", .load (withLibraryUnit "/x")]).calls = [.path "/x/m.so", .path "/x/lib/libz.so"] := by
    decide +kernel
  obtain ⟨hobeys, new, hnew, hhands⟩ := nothing_escapes (withLibrary "/x") .memory
    (s := .ofWorkspace (.ofTree .empty)) hplain [.resolve "m"] (.load (withLibraryUnit "/x"))
  have hbefore : ((withLibrary "/x").after .memory (.ofWorkspace (.ofTree .empty)) [.resolve "m"]).calls = [] := by
    decide +kernel
  rw [hbefore, List.append_nil] at hnew
  exact ⟨hplain, hobeys, hcalls, hhands _ (hnew ▸ hcalls ▸ by simp)⟩

/-! ## (6) Starts -/

/-- Opening the bundles of an importer changes nothing. -/
theorem preserves_ofSettings {I : Workspace → Prop} (settings : Settings) (host : Host) :
    (ofSettings settings host).Preserves I := by
  have hread : ∀ path, (openLayer path).Preserves I := by
    intro path
    unfold openLayer Workspace.read
    refine Preserves.bind (Preserves.attempt fun _ hw => hw) fun r => ?_
    split
    · exact preserves_ofExcept _
    · exact preserves_throw _
    · exact preserves_throw _
  have hslot : ∀ l, (openSlot l).Preserves I := by
    intro l
    unfold openSlot
    refine (hread l.path).attempt.bind fun r => ?_
    split
    · exact preserves_pure _
    · exact preserves_pure _
  unfold ofSettings openRoot
  refine (preserves_ofExcept _).bind fun _ => (Preserves.mapM fun r _ => ?_).bind fun _ => preserves_pure _
  exact (Preserves.mapM fun l _ => hslot l).bind fun _ => preserves_pure _

/-- **A start** does what a check by the importer of the settings does, or nothing. -/
theorem start_cases (settings : Settings) (host : Host) (s : ImporterState) :
    ((start settings host).outcome s).2 = s ∨ ∃ m path,
      ((ofSettings settings host).outcome s.workspace).1 = .ok m ∧ settings.recordFile = some path ∧
      ((start settings host).outcome s).2 = m.after (.file path) s [.checkBuilds] := by
  have hopen : ((ofSettings settings host).outcome s.workspace).2 = s.workspace :=
    preserves_ofSettings (I := (· = s.workspace)) settings host s.workspace rfl
  -- Nothing is changed before there is an importer, and then only if there is a store.
  rw [start, outcome_bind, Importing.ofWork, outcome_onto, outcome_failingAs]
  rcases hout : (ofSettings settings host).outcome s.workspace with ⟨e | m, w⟩
  · rw [hout] at hopen
    cases hopen
    exact .inl rfl
  · rw [hout] at hopen
    cases hopen
    dsimp only [Except.mapError]
    cases hrecord : settings.recordFile with
    | none => exact .inl rfl
    | some path =>
      refine .inr ⟨m, path, rfl, rfl, ?_⟩
      dsimp only
      rw [after, List.foldl_cons, List.foldl_nil, Request.perform, outcome_bind, outcome_bind]
      rcases (m.checkBuilds (.file path)).outcome s with ⟨e | checks, s'⟩ <;> rfl

end Importer

end LayeredBundles
