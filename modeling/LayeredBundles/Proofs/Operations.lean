import LayeredBundles.Proofs.Effects
import LayeredBundles.Proofs.Lookups

/-! # What operations preserve

Every operation of a root or of an importer reaches the file tree through artifacts it makes and checks it
performs. What those preserve of the workspace, the operation preserves.

* **`Root.preserves_unpackPackage`**, **`Hit.preserves_realize`** — operations of a root;
* **`Loader.preserves_loadOnce`** — loading, whatever is located on the way;
* **`Importer.preserves_resolve`**, **`preserves_prepareBinary`** — operations of an importer;
* **`Importer.Request`** — what an importer can be asked for; **`Importer.after`** a sequence of requests. -/

namespace LayeredBundles

open Fallible

variable {I : Workspace → Prop}

/-! ## (1) Operations of a root -/

namespace Root

variable {r : Root} {α : Type}

/-- What holds of a workspace, said of the state of a root. -/
abbrev Has (I : Workspace → Prop) (s : RootState) : Prop := I s.workspace

/-- Work on the workspace of a root preserves what it does by itself. -/
theorem preserves_ofWork {a : Work ImportFailure α} (h : a.Preserves I) : (RootWork.ofWork a).Preserves (Has I) :=
  h.onto (fun _ hs => hs) fun _ _ _ hs => hs

/-- An artifact of a root preserves what making it from its layer does. -/
theorem preserves_makeArtifact {i : Nat} {path : String}
    (h : ∀ l, r.layerAt i = .ok l → (Extraction.makeArtifact r.dir l path).Preserves I) :
    (r.makeArtifact i path).Preserves (Has I) := by
  unfold makeArtifact
  exact Preserves.ofExcept_bind fun l hl => preserves_ofWork (h l hl)

/-- An artifact that was made is that of the layer at the position. -/
theorem exists_of_makeArtifact {i : Nat} {path dest : String} {s s' : RootState}
    (h : (r.makeArtifact i path).outcome s = (.ok dest, s')) : ∃ l, r.layerAt i = .ok l ∧
      (Extraction.makeArtifact r.dir l path).outcome s.workspace = (.ok dest, s'.workspace) := by
  unfold makeArtifact at h
  obtain ⟨l, s₁, hlayer, hmake⟩ := exists_of_outcome_bind_ok h
  rw [outcome_ofExcept, Prod.mk.injEq] at hlayer
  obtain ⟨hlayer, rfl⟩ := hlayer
  rw [RootWork.ofWork, outcome_onto, Prod.mk.injEq] at hmake
  exact ⟨l, hlayer, Prod.ext hmake.1 (congrArg RootState.workspace hmake.2)⟩

/-- **Unpacking a package** preserves what the artifacts of its data files preserve. -/
theorem preserves_unpackPackage {layout : Layout} {package : String}
    (h : ∀ l ∈ r.openLayers, ∀ path ∈ r.packageData layout l.2 package,
      (Extraction.makeArtifact r.dir l.2 path).Preserves I) :
    (r.unpackPackage layout package).Preserves (Has I) := by
  have hfiles : ∀ f ∈ r.openLayers.flatMap fun l =>
      (r.packageData layout l.2 package).map fun path => (l.2, path),
        (Extraction.makeArtifact r.dir f.1 f.2).Preserves I := by
    intro f hf
    obtain ⟨l, hl, hf⟩ := List.mem_flatMap.1 hf
    obtain ⟨path, hpath, rfl⟩ := List.mem_map.1 hf
    exact h l hl path hpath
  unfold unpackPackage
  refine preserves_get.bind fun s => ?_
  split
  · exact preserves_pure _
  · refine (Preserves.forIn fun f hf => ?_).bind fun _ => ?_
    · exact (preserves_ofWork (hfiles f hf)).bind fun _ => preserves_pure _
    · exact Preserves.bind (fun s hs => hs) fun _ => preserves_pure _

/-- **Locating a library** preserves what the artifact of the library preserves. -/
theorem preserves_locateLibrary {dirs : List String} {name : String}
    (h : ∀ l path, r.findLibrary? dirs name = some (l, path) →
      (Extraction.makeArtifact r.dir l path).Preserves I) : (r.locateLibrary dirs name).Preserves I := by
  unfold locateLibrary
  split
  · exact preserves_pure _
  · next l path hfind => exact (h l path hfind).bind fun _ => preserves_pure _

end Root

/-- The file of a hit preserves what its artifact does. -/
theorem Hit.preserves_extractSource {h : Hit} {r : Root} {name : String}
    (hsource : ∀ l, r.layerAt h.layer = .ok l → (Extraction.makeArtifact r.dir l h.path).Preserves I) :
    (h.extractSource r name).Preserves (Root.Has I) := by
  unfold extractSource
  split
  · exact (Root.preserves_makeArtifact hsource).bind fun _ => preserves_pure _
  · exact preserves_pure _

/-- The file of a hit is extracted from its layer, or nothing happens. -/
theorem Hit.cases_of_extractSource {h : Hit} {r : Root} {name : String} {artifact : Option String} {s s' : RootState}
    (hok : (h.extractSource r name).outcome s = (.ok artifact, s')) :
    ((h.kind = .source ∧ r.requiresSource (UnitName.topLevel name)) ∧ ∃ dest l, artifact = some dest ∧
      r.layerAt h.layer = .ok l ∧
        (Extraction.makeArtifact r.dir l h.path).outcome s.workspace = (.ok dest, s'.workspace)) ∨
    ¬ (h.kind = .source ∧ r.requiresSource (UnitName.topLevel name)) ∧ artifact = none ∧ s' = s := by
  unfold extractSource at hok
  split at hok
  · next hrequired =>
    obtain ⟨dest, s₁, hmake, hok⟩ := exists_of_outcome_bind_ok hok
    cases hok
    obtain ⟨l, hlayer, hmake⟩ := Root.exists_of_makeArtifact hmake
    exact .inl ⟨hrequired, dest, l, rfl, hlayer, hmake⟩
  · next hrequired =>
    cases hok
    exact .inr ⟨hrequired, rfl, rfl⟩

/-- **A hit preserves** what the artifacts of its package, or of its file, preserve. -/
theorem Hit.preserves_realize {h : Hit} {r : Root} {layout : Layout} {name : String}
    (hpackage : ∀ l ∈ r.openLayers, ∀ path ∈ r.packageData layout l.2 (UnitName.path name),
      (Extraction.makeArtifact r.dir l.2 path).Preserves I)
    (hsource : ∀ l, r.layerAt h.layer = .ok l → (Extraction.makeArtifact r.dir l h.path).Preserves I) :
    (h.realize r layout name).Preserves (Root.Has I) := by
  have hrest : (h.extractSource r name).Preserves (Root.Has I) := preserves_extractSource hsource
  rw [realize_eq]
  split
  · exact (Root.preserves_unpackPackage hpackage).bind fun _ => hrest
  · exact hrest

/-- The artifact that a unit asks for is made last: what unpacking preserves holds when it is made. -/
theorem Hit.exists_of_realize {h : Hit} {r : Root} {layout : Layout} {name dest : String} {s s' : RootState}
    (hunpack : (r.unpackPackage layout (UnitName.path name)).Preserves (Root.Has I)) (hs : I s.workspace)
    (hok : (h.realize r layout name).outcome s = (.ok (some dest), s')) : ∃ l w, I w ∧
      r.layerAt h.layer = .ok l ∧ (Extraction.makeArtifact r.dir l h.path).outcome w = (.ok dest, s'.workspace) := by
  have hsource : ∀ s₁ : RootState, I s₁.workspace → (h.extractSource r name).outcome s₁ = (.ok (some dest), s') →
      ∃ l w, I w ∧ r.layerAt h.layer = .ok l ∧
        (Extraction.makeArtifact r.dir l h.path).outcome w = (.ok dest, s'.workspace) := by
    intro s₁ hs₁ hout
    obtain ⟨-, _, l, hdest, hlayer, hmake⟩ | ⟨-, hnone, -⟩ := cases_of_extractSource hout
    · cases hdest
      exact ⟨l, s₁.workspace, hs₁, hlayer, hmake⟩
    · cases hnone
  rw [realize_eq] at hok
  split at hok
  · obtain ⟨count, s₁, hunpacked, hok⟩ := exists_of_outcome_bind_ok hok
    exact hsource s₁ ((hunpack s hs).of_outcome hunpacked) hok
  · exact hsource s hs hok

/-! ## (2) Loading -/

namespace Loader

variable {α β : Type} {host : Host} {locator : Locator}

/-- `Preserves` of a loading step. -/
def Keeps (I : Workspace → Prop) (a : Loading α) : Prop := ∀ s, I s.workspace → I (a.run s).2.workspace

/-- A value keeps anything. -/
theorem keeps_pure (x : α) : Keeps I (pure x : Loading α) := fun _ hs => hs

/-- Two steps keep what both keep. -/
theorem Keeps.bind {a : Loading α} {f : α → Loading β} (ha : Keeps I a) (hf : ∀ x, Keeps I (f x)) :
    Keeps I (a >>= f) := fun s hs => hf (a.run s).1 (a.run s).2 (ha s hs)

/-- So do as many as there are. -/
theorem Keeps.forM {γ : Type} {xs : List γ} {f : γ → Loading PUnit} (h : ∀ x, Keeps I (f x)) :
    Keeps I (xs.forM f) := by
  induction xs with
  | nil => exact keeps_pure _
  | cons x xs ih => exact (h x).bind fun _ => ih

/-- A loading step keeps what the work in it preserves. -/
theorem keeps_outcomeOf {ε : Type} {a : Work ε α} (h : a.Preserves I) : Keeps I (outcomeOf a) :=
  fun s hs => h s.workspace hs

/-- A note in the record changes nothing else. -/
theorem keeps_note (name : String) (status : LoadStatus) : Keeps I (note name status) := fun _ hs => hs

/-- The host's verdict leaves the workspace alone. -/
theorem keeps_verdict (call : HostCall) (loaded : LoadStatus) : Keeps I (verdict host call loaded) := by
  refine Keeps.bind (fun _ hs => hs) fun r => ?_
  cases r <;> exact keeps_pure _

/-- Reading what a file needs preserves anything. -/
theorem preserves_neededOf (path : String) : (Elf.neededOf path).Preserves I := by
  refine Preserves.bind (fun _ hw => hw) fun d => preserves_ofExcept _

/-- **Loading a library** preserves what locating preserves. -/
theorem keeps_loadOnce (h : ∀ name, (locator.locate name).Preserves I) (depth : Nat) (name : String) :
    Keeps I (loadOnce host locator depth name) := by
  induction depth generalizing name with
  | zero => exact keeps_pure _
  | succ depth ih =>
    have hlocate : Keeps I (locate locator name) := by
      unfold locate
      split
      · refine (keeps_outcomeOf (h name)).bind fun r => ?_
        cases r <;> exact keeps_pure _
      · exact keeps_pure _
    have hverdict : ∀ call loaded, Keeps I (do note name (← verdict host call loaded)) :=
      fun call loaded => (keeps_verdict call loaded).bind fun _ => keeps_note _ _
    unfold loadOnce
    refine Keeps.bind (fun _ hs => hs) fun s => ?_
    split
    · exact keeps_pure _
    · refine (keeps_note _ _).bind fun _ => hlocate.bind fun found => ?_
      cases found with
      | none => exact hverdict _ _
      | some path =>
        refine (keeps_outcomeOf (preserves_neededOf path)).bind fun needs => ?_
        cases needs with
        | error x => exact hverdict _ _
        | ok needs => exact (Keeps.forM fun name => ih name).bind fun _ => hverdict _ _

/-- **Loading all that a file needs** preserves what locating preserves. -/
theorem preserves_loadNeeds (h : ∀ name, (locator.locate name).Preserves I) (path : String) :
    (loadNeeds host locator path).Preserves fun s => I s.workspace := by
  intro s hs
  have hneeds : I ((outcomeOf (Elf.neededOf path)).run s).2.workspace :=
    keeps_outcomeOf (preserves_neededOf path) s hs
  rw [Yields, loadNeeds, outcome_ofOutcome]
  rcases hout : (outcomeOf (Elf.neededOf path)).run s with ⟨x | needs, s'⟩
  · rw [hout] at hneeds
    exact hneeds
  · rw [hout] at hneeds
    exact Keeps.forM (fun name => keeps_loadOnce h (depth locator) name) s' hneeds

end Loader

/-! ## (3) Operations of an importer -/

namespace Importer

variable {m : Importer} {α : Type} {J : ImporterState → Prop}

/-- What holds of a workspace, said of the state of an importer. -/
abbrev Has (I : Workspace → Prop) (s : ImporterState) : Prop := I s.workspace

/-- What is done on one root preserves what it does by itself. -/
theorem preserves_onRoot {i : Nat} {a : RootWork α} (h : a.Preserves (Root.Has I)) :
    (Importing.onRoot i a).Preserves (Has I) := h.onto (fun _ hs => hs) fun _ _ _ hs => hs

/-- The first root that holds a name. -/
def holder? (layout : Layout) (name : String) (roots : List Root) : Option Root :=
  roots.find? fun r => (r.find? layout (UnitName.path name)).isSome

/-- The root that holds a name is one of the importer. -/
theorem mem_of_holder? {layout : Layout} {name : String} {roots : List Root} {r : Root}
    (h : holder? layout name roots = some r) : r ∈ roots := List.mem_of_find?_eq_some h

/-- **Looking a name up** preserves what realizing the hit in the first root that holds it preserves. -/
theorem preserves_resolveIn {layout : Layout} {name : String} {roots : List (Root × Nat)}
    (h : ∀ r, holder? layout name (roots.map (·.1)) = some r → ∀ i hit,
      r.find? layout (UnitName.path name) = some hit → (Importing.onRoot i (hit.realize r layout name)).Preserves J) :
    (resolveIn layout name roots).Preserves J := by
  induction roots with
  | nil => exact preserves_throw _
  | cons r roots ih =>
    obtain ⟨r, i⟩ := r
    unfold resolveIn
    refine (preserves_ofExcept _).bind fun _ => ?_
    split
    · next hnone =>
      refine ih fun r' hr' => h r' ?_
      rw [List.map_cons, holder?, List.find?_cons_of_neg (by simp [hnone])]
      exact hr'
    · next hit hfind =>
      have hr : holder? layout name (((r, i) :: roots).map (·.1)) = some r :=
        List.find?_cons_of_pos (by simp [hfind])
      exact (h r hr i hit hfind).bind fun _ => preserves_ofExcept _

/-- **Resolving a name preserves** what realizing the hit does in the root that holds it. -/
theorem preserves_resolve {name : String} (h : ∀ r, holder? m.layout name m.roots = some r → ∀ i hit,
      r.find? m.layout (UnitName.path name) = some hit →
        (Importing.onRoot i (hit.realize r m.layout name)).Preserves J) : (m.resolve name).Preserves J := by
  unfold resolve
  split
  · exact preserves_resolveIn fun r hr => h r (by rwa [indexed, List.zipIdx_map_fst] at hr)
  · exact preserves_throw _

/-- Making a data file preserves what making it in the root where it was located does. -/
theorem preserves_makeDataArtifact {path : String} (h : ∀ r i j, m.locateData path = .ok (r, i, j) →
      (Importing.onRoot i (r.makeArtifact j path)).Preserves J) : (m.makeDataArtifact path).Preserves J := by
  unfold makeDataArtifact
  exact Preserves.ofExcept_bind fun ⟨r, i, j⟩ hlocate => h r i j hlocate

/-- Loading what a binary needs preserves what locating libraries preserves. -/
theorem preserves_needs {r : Root} (h : ∀ name, (r.locateLibrary m.libraryDirs name).Preserves I) (path : String) :
    (((Loader.loadNeeds m.host (m.locator r) path).failingAs ImportFailure.native).onto (·.toLoaderState)
      fun l (s : ImporterState) => { s with toLoaderState := l }).Preserves (Has I) := by
  have hneeds : (Loader.loadNeeds m.host (m.locator r) path).Preserves fun s => I s.workspace :=
    Loader.preserves_loadNeeds h path
  exact Preserves.onto (hneeds.failingAs _) (fun _ hs => hs) fun _ _ _ hs => hs

/-- **Preparing a binary** preserves what making its artifact and loading what it needs preserve. -/
theorem preserves_prepareBinary {u : FoundUnit} (hartifact : ∀ r, m.root u.rootIndex = .ok r →
      (Importing.onRoot u.rootIndex (r.makeArtifact u.layerIndex u.path)).Preserves J)
    (hneeds : ∀ r path, m.root u.rootIndex = .ok r →
      (((Loader.loadNeeds m.host (m.locator r) path).failingAs ImportFailure.native).onto (·.toLoaderState)
        fun l (s : ImporterState) => { s with toLoaderState := l }).Preserves J) :
    (m.prepareBinary u).Preserves J := by
  have hrest : (do
      let r ← .ofExcept (m.root u.rootIndex)
      let path ← .onRoot u.rootIndex (r.makeArtifact u.layerIndex u.path)
      (Loader.loadNeeds m.host (m.locator r) path).failingAs .native
        |>.onto (·.toLoaderState) fun l s => { s with toLoaderState := l }
      return path : Importing String).Preserves J := by
    refine Preserves.ofExcept_bind fun r hr => ?_
    exact (hartifact r hr).bind fun path => (hneeds r path hr).bind fun _ => preserves_pure _
  unfold prepareBinary
  split
  · exact (preserves_throw _).bind fun _ => hrest
  · exact hrest

/-- Loading a binary preserves what preparing it does. -/
theorem preserves_loadBinary {u : FoundUnit} (h : (m.prepareBinary u).Preserves (Has I)) :
    (m.loadBinary u).Preserves (Has I) := by
  unfold loadBinary
  refine h.bind fun path => Preserves.bind (fun _ hs => hs) fun verdict => ?_
  cases verdict with
  | ok => exact preserves_pure _
  | error reason => exact preserves_throw _

/-- **A binary that was prepared** has an artifact, and after it was made only libraries were located. -/
theorem exists_of_prepareBinary {u : FoundUnit} {s s' : ImporterState} {dest : String}
    (h : (m.prepareBinary u).outcome s = (.ok dest, s')) : ∃ r l w, m.root u.rootIndex = .ok r ∧
      r.layerAt u.layerIndex = .ok l ∧
      (Extraction.makeArtifact r.dir l u.path).outcome s.workspace = (.ok dest, w) ∧
      ∀ I : Workspace → Prop, (∀ name, (r.locateLibrary m.libraryDirs name).Preserves I) → I w → I s'.workspace := by
  unfold prepareBinary at h
  split at h
  · obtain ⟨_, _, hthrow, -⟩ := exists_of_outcome_bind_ok h
    cases hthrow
  · obtain ⟨r, s₁, hroot, h⟩ := exists_of_outcome_bind_ok h
    rw [outcome_ofExcept, Prod.mk.injEq] at hroot
    obtain ⟨hroot, rfl⟩ := hroot
    obtain ⟨dest', s₂, hmake, h⟩ := exists_of_outcome_bind_ok h
    obtain ⟨_, s₃, hload, h⟩ := exists_of_outcome_bind_ok h
    cases h
    rw [Importing.onRoot, outcome_onto, Prod.mk.injEq] at hmake
    obtain ⟨l, hlayer, hmade⟩ := Root.exists_of_makeArtifact (Prod.ext hmake.1 rfl)
    refine ⟨r, l, s₂.workspace, hroot, hlayer, ?_, fun I hlocate hI => ?_⟩
    · rw [← hmake.2]
      exact hmade
    · rw [outcome_onto, Prod.mk.injEq] at hload
      rw [← hload.2]
      have hneeds : (Loader.loadNeeds m.host (m.locator r) dest).Preserves fun s => I s.workspace :=
        Loader.preserves_loadNeeds hlocate dest
      exact hneeds _ hI

/-- A binary that was loaded was prepared, and asking the host changes no files. -/
theorem exists_of_loadBinary {u : FoundUnit} {s s' : ImporterState} {dest : String}
    (h : (m.loadBinary u).outcome s = (.ok dest, s')) :
    ∃ s₁, (m.prepareBinary u).outcome s = (.ok dest, s₁) ∧ s'.workspace = s₁.workspace := by
  unfold loadBinary at h
  obtain ⟨dest', s₁, hprepare, h⟩ := exists_of_outcome_bind_ok h
  obtain ⟨verdict, s₂, hask, h⟩ := exists_of_outcome_bind_ok h
  rw [outcome_ofOutcome] at hask
  cases hask
  split at h
  · cases h
    exact ⟨s₁, hprepare, rfl⟩
  · cases h

/-- Checking all builds preserves what each check does. -/
theorem preserves_checkBuilds {store : RecordStore}
    (h : ∀ r ∈ m.roots, ∀ i, (Importing.onRoot i (r.checkBuild store)).Preserves J) :
    (m.checkBuilds store).Preserves J :=
  Preserves.mapM fun r hr => h r.1 (List.mem_of_getElem? (List.mem_zipIdx_iff_getElem?.1 hr)) r.2

/-! ## (4) What is found -/

/-- A name is found in the first root that holds it; the roots before it are left as they are. -/
theorem exists_of_resolveIn {layout : Layout} {name : String} {roots : List (Root × Nat)} {s s' : ImporterState}
    {u : FoundUnit} (h : (resolveIn layout name roots).outcome s = (.ok u, s')) :
    ∃ r i hit artifact rs, (r, i) ∈ roots ∧ r.requireOpen = .ok () ∧
      r.find? layout (UnitName.path name) = some hit ∧
      (hit.realize r layout name).outcome (s.root i) = (.ok artifact, rs) ∧ s' = s.withRoot i rs ∧
      hit.unit r i name artifact = .ok u := by
  induction roots with
  | nil => cases h
  | cons r roots ih =>
    obtain ⟨r, i⟩ := r
    unfold resolveIn at h
    obtain ⟨_, s₁, hopen, h⟩ := exists_of_outcome_bind_ok h
    rw [outcome_ofExcept, Prod.mk.injEq] at hopen
    obtain ⟨hopen, rfl⟩ := hopen
    split at h
    · obtain ⟨r', i', hit, artifact, rs, hmem, hrest⟩ := ih h
      exact ⟨r', i', hit, artifact, rs, List.mem_cons_of_mem _ hmem, hrest⟩
    · next hit hfind =>
      obtain ⟨artifact, s₂, hrealize, h⟩ := exists_of_outcome_bind_ok h
      rw [outcome_ofExcept, Prod.mk.injEq] at h
      obtain ⟨hunit, rfl⟩ := h
      rw [Importing.onRoot, outcome_onto, Prod.mk.injEq] at hrealize
      exact ⟨r, i, hit, artifact, _, by simp, hopen, hfind, Prod.ext hrealize.1 rfl, hrealize.2.symm, hunit⟩

/-- **What is found** is a hit of some root, realized there. -/
theorem exists_of_resolve {name : String} {s s' : ImporterState} {u : FoundUnit}
    (h : (m.resolve name).outcome s = (.ok u, s')) : UnitName.isValid name = true ∧
      ∃ r i hit artifact rs, m.roots[i]? = some r ∧ r.requireOpen = .ok () ∧
        r.find? m.layout (UnitName.path name) = some hit ∧
        (hit.realize r m.layout name).outcome (s.root i) = (.ok artifact, rs) ∧ s' = s.withRoot i rs ∧
        hit.unit r i name artifact = .ok u := by
  unfold resolve at h
  split at h
  · next hvalid =>
    obtain ⟨r, i, hit, artifact, rs, hmem, hrest⟩ := exists_of_resolveIn h
    exact ⟨hvalid, r, i, hit, artifact, rs, mem_indexed.1 hmem, hrest⟩
  · cases h

/-! ## (5) Sequences of requests -/

/-- Read a data file. The state is left as it is, also where reading stops short. -/
def readData (m : Importer) (path : String) : Importing (Except Layer.Stop ByteArray) :=
  .ofExcept <| match m.dataBytes path with
    | .ok answer => answer.map .ok
    | .error stop => .ok (.error stop)

/-- What an importer can be asked for. -/
inductive Request where
  /-- Find a unit. -/
  | resolve (name : String)
  /-- Make the artifact of a data file. -/
  | makeData (path : String)
  /-- Read a data file. -/
  | readData (path : String)
  /-- Load what a shared binary needs. -/
  | prepare (unit : FoundUnit)
  /-- Load a shared binary. -/
  | load (unit : FoundUnit)
  /-- Check the builds of all roots. -/
  | checkBuilds

namespace Request

/-- The units that a request is about. -/
def units : Request → List FoundUnit
  | .prepare u => [u]
  | .load u => [u]
  | _ => []

/-- Do what is asked for; the units that were found. -/
def perform (m : Importer) (store : RecordStore) : Request → Importing (List FoundUnit)
  | .resolve name => return [← m.resolve name]
  | .makeData path => do
    let _ ← m.makeDataArtifact path
    return []
  | .readData path => do
    let _ ← m.readData path
    return []
  | .prepare u => do
    let _ ← m.prepareBinary u
    return []
  | .load u => do
    let _ ← m.loadBinary u
    return []
  | .checkBuilds => do
    let _ ← m.checkBuilds store
    return []

end Request

/-- The state after some requests, whether they ended well or not. -/
def after (m : Importer) (store : RecordStore) (s : ImporterState) (qs : List Request) : ImporterState :=
  qs.foldl (fun s q => ((q.perform m store).outcome s).2) s

/-- A **supply** tells which files of which layers of a root may be extracted. -/
abbrev Supply := Root → Nat × Layer → String → Prop

variable {P : Supply} {store : RecordStore}

/-- `m.Admits P`: files of the first layer that has them may be extracted, and so may the data files of a
package. -/
structure Admits (m : Importer) (P : Supply) : Prop where
  /-- Files of the first layer. -/
  first : ∀ r ∈ m.roots, ∀ l path, r.first? path = some l → P r l path
  /-- Data files. -/
  data : ∀ r ∈ m.roots, ∀ l ∈ r.openLayers, ∀ package, ∀ path ∈ r.packageData m.layout l.2 package, P r l path

/-- `m.Conserves P store I`: artifacts of the supply and checks preserve `I`. -/
structure Conserves (m : Importer) (P : Supply) (store : RecordStore) (I : Workspace → Prop) : Prop where
  /-- Artifacts. -/
  artifact : ∀ r ∈ m.roots, ∀ l ∈ r.openLayers, ∀ path, P r l path →
    (Extraction.makeArtifact r.dir l.2 path).Preserves I
  /-- Checks. -/
  check : ∀ r ∈ m.roots, (r.checkBuild store).Preserves (Root.Has I)

/-- The file of a unit may be extracted. -/
def Supplies (m : Importer) (P : Supply) (u : FoundUnit) : Prop :=
  ∀ r l, m.roots[u.rootIndex]? = some r → (u.layerIndex, l) ∈ r.openLayers → P r (u.layerIndex, l) u.path

section Conserves

variable (hadmits : m.Admits P) (hconserves : m.Conserves P store I)

include hadmits hconserves

/-- The artifact of the first layer with a file is conserved. -/
theorem Conserves.first {r : Root} (hr : r ∈ m.roots) {i : Nat} {l : Layer} {path : String}
    (h : r.first? path = some (i, l)) : (Extraction.makeArtifact r.dir l path).Preserves I :=
  hconserves.artifact r hr (i, l) (Root.mem_of_first? h) path (hadmits.first r hr (i, l) path h)

/-- So is what resolving a name does. -/
theorem Conserves.resolve (name : String) : (m.resolve name).Preserves (Has I) := by
  refine preserves_resolve fun r hr i hit hhit => preserves_onRoot ?_
  replace hr := mem_of_holder? hr
  refine Hit.preserves_realize (fun l hl path hpath => ?_) fun l hl => ?_
  · exact hconserves.artifact r hr l hl path (hadmits.data r hr l hl _ path hpath)
  · obtain ⟨l', hfirst⟩ := Root.first?_of_find? hhit
    have hlayer := Root.layerAt_eq_ok.2 (Root.mem_of_first? hfirst)
    rw [hl] at hlayer
    cases hlayer
    exact hconserves.first hadmits hr hfirst

/-- So is what making a data file does. -/
theorem Conserves.makeDataArtifact (path : String) : (m.makeDataArtifact path).Preserves (Has I) := by
  refine preserves_makeDataArtifact fun r i j hlocate => preserves_onRoot (Root.preserves_makeArtifact fun l hl => ?_)
  obtain ⟨hr, l', hfirst⟩ := first?_of_locateData hlocate
  have hlayer := Root.layerAt_eq_ok.2 (Root.mem_of_first? hfirst)
  rw [hl] at hlayer
  cases hlayer
  exact hconserves.first hadmits (List.mem_of_getElem? hr) hfirst

/-- So is what looking for a library does. -/
theorem Conserves.locateLibrary {r : Root} (hr : r ∈ m.roots) (name : String) :
    (r.locateLibrary m.libraryDirs name).Preserves I := by
  refine Root.preserves_locateLibrary fun l path hfind => ?_
  obtain ⟨i, hfirst⟩ := Root.first?_of_findLibrary? hfind
  exact hconserves.first hadmits hr hfirst

/-- So is what preparing a binary does. -/
theorem Conserves.prepareBinary {u : FoundUnit} (hu : m.Supplies P u) : (m.prepareBinary u).Preserves (Has I) := by
  refine preserves_prepareBinary (fun r hr => ?_) fun r path hr => ?_
  · rw [root_eq_ok] at hr
    refine preserves_onRoot (Root.preserves_makeArtifact fun l hl => ?_)
    rw [Root.layerAt_eq_ok] at hl
    exact hconserves.artifact r (List.mem_of_getElem? hr) _ hl _ (hu r l hr hl)
  · rw [root_eq_ok] at hr
    exact preserves_needs (hconserves.locateLibrary hadmits (List.mem_of_getElem? hr)) path

/-- **A request** preserves what artifacts and checks preserve. -/
theorem Conserves.perform {q : Request} (hunits : ∀ u ∈ q.units, m.Supplies P u) :
    (q.perform m store).Preserves (Has I) := by
  unfold Request.perform
  cases q with
  | resolve name => exact (hconserves.resolve hadmits name).bind fun _ => preserves_pure _
  | makeData path => exact (hconserves.makeDataArtifact hadmits path).bind fun _ => preserves_pure _
  | readData path => exact (preserves_ofExcept _).bind fun _ => preserves_pure _
  | prepare u =>
    exact (hconserves.prepareBinary hadmits (hunits u (by simp [Request.units]))).bind fun _ => preserves_pure _
  | load u =>
    have hprepare := hconserves.prepareBinary hadmits (hunits u (by simp [Request.units]))
    exact (preserves_loadBinary hprepare).bind fun _ => preserves_pure _
  | checkBuilds =>
    exact (preserves_checkBuilds fun r hr _ => preserves_onRoot (hconserves.check r hr)).bind fun _ => preserves_pure _

/-- **A sequence of requests** preserves what artifacts and checks preserve. -/
theorem Conserves.after {qs : List Request} (hunits : ∀ q ∈ qs, ∀ u ∈ q.units, m.Supplies P u)
    {s : ImporterState} (hs : I s.workspace) : I (m.after store s qs).workspace := by
  induction qs generalizing s with
  | nil => exact hs
  | cons q qs ih =>
    have hq := hconserves.perform hadmits (hunits q (by simp)) s hs
    exact ih (fun q' hq' => hunits q' (List.mem_cons_of_mem _ hq')) hq

end Conserves

end Importer

end LayeredBundles
