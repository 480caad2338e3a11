import LayeredBundles.Proofs.Checks
import LayeredBundles.Proofs.Operations

/-! # Everything extracted is a copy

The extraction directories of an importer begin with nothing in them, and nobody else writes there. So every
file in them is the copy of a layer's file, of one that the supply allows, at the names it has in the layer.

* **`FileTree.Stocked`** — every file below a directory is a copy that a supply allows;
* **`Importer.Ground`** — the directories, locks and store of an importer do not get in each other's way;
* **`Importer.Stock`** — all of this for every root;
* **`Importer.conserves_stock`** — artifacts and checks preserve it, hence so do all requests. -/

namespace LayeredBundles

open FileTree Fallible

namespace FileTree

variable {t t' : FileTree} {F K : Place → Prop} {X : Place → Option Node → Prop} {d d' : Place}
  {supply : Layer → String → Prop}

/-! ## (1) What is not touched -/

/-- Changes that are not below `d` and keep its directory keep it rooted. -/
theorem Rooted.of_touches (hr : t.Rooted d) (h : Touches X t t') (hX : ∀ v n, isBelow d v = true → ¬ X v n)
    (hdir : t.node? d = some .directory → t'.node? d = some .directory) : t'.Rooted d := by
  intro v n hv hnode hn
  refine hdir (hr v n hv ?_ hn)
  rcases h.node v with hsame | ⟨-, hnew⟩ | hx
  · rw [← hsame, hnode]
  · rw [hnew] at hnode
    cases hnode
    exact absurd rfl hn
  · exact absurd hx (hX v _ hv)

/-- What is below two places is below one of them by the other. -/
theorem comparable {v : Place} (hd : ¬ d <+: d') (hd' : ¬ d' <+: d) (h : d <+: v) : ¬ d' <+: v := fun h' =>
  (List.prefix_or_prefix_of_prefix h h').elim hd hd'

/-- Filling one directory leaves another beside it rooted. -/
theorem Fills.rooted_beside (h : Fills d t t') (hd : ¬ d <+: d') (hd' : ¬ d' <+: d) (hr : t.Rooted d') :
    t'.Rooted d' := by
  refine hr.of_touches h.touches (fun v n hv hX => ?_) fun hdir => ?_
  · exact comparable hd' hd (isBelow_iff.1 hv).1 (isBelow_iff.1 hX.1).1
  · rcases h.touches.node d' with hsame | ⟨hnone, -⟩ | hX
    · rw [hsame, hdir]
    · rw [hdir] at hnone; cases hnone
    · exact absurd (isBelow_iff.1 hX.1).1 hd

/-- So does tidying one. -/
theorem Tidies.rooted_beside (h : Tidies d F K t t') (hF : ∀ v, F v → isBelow d' v = false) (hd : ¬ d <+: d')
    (hd' : ¬ d' <+: d) (hr : t.Rooted d') : t'.Rooted d' := by
  refine hr.of_touches h.touches (fun v n hv hX => ?_) (h.directory d' hd)
  rcases hX with ⟨hdv, -⟩ | hFv
  · exact comparable hd' hd (isBelow_iff.1 hv).1 hdv
  · rw [hF v hFv] at hv
    cases hv

/-! ## (2) Copies -/

/-- `t.Stocked supply d`: every file strictly below `d` is the copy of a layer's file that the supply has, at the
names of its path. -/
def Stocked (t : FileTree) (supply : Layer → String → Prop) (d : Place) : Prop :=
  ∀ names c m, names ≠ [] → t.node? (d ++ names) = some (.file c m) →
    ∃ l path, supply l path ∧ DiskPath.steps path = names ∧ l.IsCopy path (.file c m)

/-- What is stocked stays so, if every file that comes is a copy too. -/
theorem Stocked.of_touches (hs : t.Stocked supply d) (h : Touches X t t')
    (hX : ∀ names c m, names ≠ [] → X (d ++ names) (some (.file c m)) →
      ∃ l path, supply l path ∧ DiskPath.steps path = names ∧ l.IsCopy path (.file c m)) : t'.Stocked supply d := by
  intro names c m hne hnode
  rcases h.node (d ++ names) with hsame | ⟨-, hdir⟩ | hx
  · exact hs names c m hne (hsame ▸ hnode)
  · rw [hdir] at hnode; cases hnode
  · exact hX names c m hne (hnode ▸ hx)

/-- A path of one name at least leads below a place. -/
theorem isBelow_append {names : List String} (hne : names ≠ []) (d : Place) : isBelow d (d ++ names) = true :=
  isBelow_iff.2 ⟨List.prefix_append _ _, fun h => hne (List.append_right_eq_self.1 h)⟩

/-- Filling one directory adds nothing to another that stands beside it. -/
theorem Stocked.fills_beside (hs : t.Stocked supply d') (h : Fills d t t') (hd : ¬ d <+: d') (hd' : ¬ d' <+: d) :
    t'.Stocked supply d' :=
  hs.of_touches h.touches fun names _ _ _ hX =>
    absurd (isBelow_iff.1 hX.1).1 (comparable hd' hd (List.prefix_append d' names))

/-- Tidying brings no files below a directory, be it the one that is tidied or another one. -/
theorem Stocked.tidies (hs : t.Stocked supply d') (h : Tidies d F K t t') (hF : ∀ v, F v → isBelow d' v = false) :
    t'.Stocked supply d' := by
  refine hs.of_touches h.touches fun names c m hne hX => ?_
  rcases hX with ⟨-, hnone | hdir⟩ | hFv
  · cases hnone
  · cases hdir
  · have hbelow := hF _ hFv
    rw [isBelow_append hne] at hbelow
    cases hbelow

end FileTree

/-- What was made of an artifact of the supply leaves the directory stocked. -/
theorem Extraction.Made.stocked {dir path : String} {l : Layer} {d : Place} {w w' : Workspace}
    {r : Except ImportFailure String} {supply : Layer → String → Prop} (h : Made dir l path d w r w')
    (hsupply : supply l path) (hs : w.tree.Stocked supply d) : w'.tree.Stocked supply d := by
  cases h with
  | refused => exact hs
  | current => exact hs
  | failed target stale x keeps next touches =>
    exact hs.of_touches touches fun names c m _ hgone => nomatch hgone
  | @arrived names name e dest target stale _ keeps serial next touches arrived =>
    refine hs.of_touches touches fun names' c m _ hchange => ?_
    cases hchange with
    | gone hgone => cases hgone
    | copied place contents =>
      rw [List.append_assoc, List.append_cancel_left_eq] at place
      refine ⟨l, path, hsupply, target.steps.trans place.symm, e, c, target.entry, target.file, ?_, rfl⟩
      rw [← Layer.contents_entry target.entry, contents]

/-! ## (3) The directories of an importer -/

namespace Importer

/-- `m.Ground store ds place w`: in a workspace, the root at position `i` has its directory at `ds i`, with no
links in it, and the directories, locks and store do not get in each other's way. -/
structure Ground (m : Importer) (store : RecordStore) (ds : Nat → Place) (place : Option Place) (w : Workspace) :
    Prop where
  /-- Where the directories stand: their paths do not pass them, and there are no links in them. -/
  sites : ∀ i r, m.roots[i]? = some r → w.tree.Site (fun v => Outside (ds i) v ∧ ¬ w.Shifts place v) r.dir (ds i)
  /-- No directory is another one or stands in it. -/
  apart : ∀ i j, i < m.roots.length → j < m.roots.length → i ≠ j → ¬ ds i <+: ds j
  /-- Lock files lead somewhere. -/
  lock : ∀ i, i < m.roots.length → ∃ q, w.tree.Resolves (fun v => ¬ w.Shifts place v) (Lock.place (ds i)) q
  /-- Where the store stands. -/
  store : store.StandsAt w (fun v => ¬ w.Shifts place v) place
  /-- The locks and the store are kept elsewhere. -/
  files : ∀ i j, i < m.roots.length → j < m.roots.length → ∀ v, Root.CheckFiles w (ds i) place v →
    isBelow (ds j) v = false
  /-- A link that is put in place of the store is no directory. -/
  shifts : ∀ i, i < m.roots.length → ∀ v, w.Shifts place v → ¬ ds i <+: v
  /-- Files below the directories stand in directories. -/
  rooted : ∀ i, i < m.roots.length → w.tree.Rooted (ds i)

/-- What a supply has for a root. -/
def Supply.at (P : Supply) (r : Root) (l : Layer) (path : String) : Prop :=
  ∃ i, (i, l) ∈ r.openLayers ∧ P r (i, l) path

/-- `m.Stock P store ds place w`: the directories of an importer hold nothing but copies from the supply. -/
structure Stock (m : Importer) (P : Supply) (store : RecordStore) (ds : Nat → Place) (place : Option Place)
    (w : Workspace) : Prop extends m.Ground store ds place w where
  /-- Files are copies. -/
  stocked : ∀ i r, m.roots[i]? = some r → w.tree.Stocked (P.at r) (ds i)

section Stock

variable {m : Importer} {P : Supply} {store : RecordStore} {ds : Nat → Place} {place : Option Place}
  {w w' : Workspace} {i j : Nat} {r : Root}

/-- On firm ground the path of a directory does not pass the directory itself. -/
theorem Ground.site (h : m.Ground store ds place w) (i : Nat) (r : Root) (hr : m.roots[i]? = some r) :
    w.tree.Site (Outside (ds i)) r.dir (ds i) :=
  ⟨(h.sites i r hr).stands.mono fun _ hv => hv.1, (h.sites i r hr).plain⟩

/-- On firm ground there are no links in the directory of a root. -/
theorem Ground.plain (h : m.Ground store ds place w) (hi : i < m.roots.length) : w.tree.Plain (ds i) :=
  (h.sites i _ (List.getElem?_eq_getElem hi)).plain

/-- What shifts no links but those of the store, and keeps directories rooted, keeps them apart. -/
theorem Ground.change (h : m.Ground store ds place w) (hbase : w'.tree.base = w.tree.base)
    (hlinks : ∀ v target, ¬ w.Shifts place v →
      (w'.tree.node? v = some (.link target) ↔ w.tree.node? v = some (.link target)))
    (hprocess : w'.process = w.process) (hstands : store.StandsAt w' (fun v => ¬ w'.Shifts place v) place)
    (huses : ∀ j, j < m.roots.length → ∀ v, RecordStore.Uses w' place v → isBelow (ds j) v = false)
    (hrooted : ∀ i, i < m.roots.length → w'.tree.Rooted (ds i)) : m.Ground store ds place w' := by
  have hshifts := Workspace.shifts_of_fewer hprocess fun v target hv => (hlinks v target hv).1
  have hlock : ∀ i, i < m.roots.length → (∃ q, w'.tree.Resolves (fun v => ¬ w'.Shifts place v) (Lock.place (ds i)) q) ∧
      ∀ v, Root.CheckFiles w' (ds i) place v → Root.CheckFiles w (ds i) place v ∨ RecordStore.Uses w' place v := by
    intro i hi
    obtain ⟨q, hq⟩ := h.lock i hi
    exact Workspace.exists_resolves_lock hq hprocess (fun v target hv => hlinks v target (hv.elim id (·.2)))
      (fun v hv hv' => hv (hshifts v hv')) hstands
  exact {
    sites := fun i r hr => by
      have hsite := (h.sites i r hr).congr hbase (fun v target hv => hlinks v target hv.2) fun v hv target hlink =>
        (h.sites i r hr).plain v hv target <| (hlinks v target fun hv' =>
          h.shifts i (List.getElem?_eq_some_iff.1 hr).1 v hv' hv).1 hlink
      exact ⟨hsite.stands.mono fun v hv => ⟨hv.1, fun hv' => hv.2 (hshifts v hv')⟩, hsite.plain⟩
    apart := h.apart
    lock := fun i hi => (hlock i hi).1
    store := hstands
    files := fun i j hi hj v hv => ((hlock i hi).2 v hv).elim (h.files i j hi hj v) (huses j hj v)
    shifts := fun i hi v hv => h.shifts i hi v (hshifts v hv)
    rooted := hrooted }

/-- Every root can be checked. -/
theorem Ground.checkable (h : m.Ground store ds place w) (hr : m.roots[i]? = some r) :
    w.Checkable r.dir store (ds i) place := by
  have hi := (List.getElem?_eq_some_iff.1 hr).1
  have hfree : ∀ v, ¬ w.Shifts place v → w.Free (ds i) place v := fun v hv => ⟨h.plain hi v, hv⟩
  obtain ⟨q, hlock⟩ := h.lock i hi
  exact ⟨(h.sites i r hr).stands.named.mono fun v hv => hfree v hv.2, ⟨q, hlock.mono hfree⟩, h.store.mono hfree,
    h.files i i hi hi, h.shifts i hi, h.rooted i hi⟩

/-- What fills the directory of a root leaves the directories, locks and store where they are. -/
theorem Ground.fills (h : m.Ground store ds place w) (hi : i < m.roots.length) (hfills : w.Fills (ds i) w') :
    m.Ground store ds place w' := by
  have hlinks := hfills.tree.link_iff (h.plain hi)
  have hprocess := hfills.keeps.process
  obtain ⟨hstands, hleads⟩ := h.store.congr hfills.tree.touches.base hprocess fun v target _ => hlinks v target
  have hshifts : ∀ v, w'.Shifts place v → w.Shifts place v :=
    Workspace.shifts_of_fewer hprocess fun v target _ => (hlinks v target).1
  refine h.change hfills.tree.touches.base (fun v target _ => hlinks v target) hprocess
    (hstands.mono fun v hv hv' => hv (hshifts v hv')) (fun j hj v hv => ?_) fun j hj => ?_
  · exact h.files i j hi hj v (.inr (RecordStore.uses_of_resolves hprocess hleads v hv))
  -- One root's directory is filled, and those of the others are apart from it.
  · by_cases hij : i = j
    · exact hij ▸ hfills.tree.rooted (h.rooted i hi)
    · exact hfills.tree.rooted_beside (h.apart i j hi hj hij) (h.apart j i hj hi (Ne.symm hij)) (h.rooted j hj)

/-- **Artifacts** leave the directories, locks and store where they are. -/
theorem Ground.preserves_makeArtifact (hr : m.roots[i]? = some r) (l : Layer) (path : String) :
    (Extraction.makeArtifact r.dir l path).Preserves (m.Ground store ds place) := fun _ h =>
  (Extraction.makeArtifact_fills (h.site i r hr) l path).mono fun _ _ hfills =>
    h.fills (List.getElem?_eq_some_iff.1 hr).1 hfills

/-- **Checks** leave the directories, locks and store where they are. -/
theorem Ground.preserves_checkBuild (hr : m.roots[i]? = some r) :
    (r.checkBuild store).Preserves (Root.Has (m.Ground store ds place)) := by
  intro s h
  have hi := (List.getElem?_eq_some_iff.1 hr).1
  refine (Root.checkBuild_yields (h.checkable hr) fun _ _ => h.plain hi _ (List.prefix_refl _)).mono ?_
  rintro out s' ⟨hchecks, hcheck, -⟩
  have htidies := hchecks.tidies
  refine h.change htidies.steady.base (fun v target hv => htidies.steady.link_iff (h.plain hi v) hv target)
    hchecks.process (hcheck.store.mono fun v hv => hv.2) (fun j hj v hv => ?_) fun j hj => ?_
  -- The check tidies one root's directory, and writes nothing below any.
  · exact h.files i j hi hj v (hchecks.files v (.inr hv))
  · by_cases hij : i = j
    · exact hij ▸ htidies.rooted (h.rooted i hi)
    · exact htidies.rooted_beside (h.files i j hi hj) (h.apart i j hi hj hij) (h.apart j i hj hi (Ne.symm hij))
        (h.rooted j hj)

/-- **Artifacts preserve the stock.** -/
theorem Stock.preserves_makeArtifact (hr : m.roots[i]? = some r) {l : Layer} {path : String}
    (hsupply : P.at r l path) : (Extraction.makeArtifact r.dir l path).Preserves (m.Stock P store ds place) := by
  intro w h
  have hi := (List.getElem?_eq_some_iff.1 hr).1
  have hfills := Extraction.makeArtifact_fills (h.site i r hr) l path
  refine ((Ground.preserves_makeArtifact hr l path w h.toGround).and
    (hfills.and (Extraction.makeArtifact_yields (h.site i r hr) l path))).mono ?_
  rintro out w' ⟨hground, hfills, hmade⟩
  refine { hground with stocked := fun j r' hr' => ?_ }
  by_cases hij : i = j
  · subst hij
    rw [hr] at hr'
    cases hr'
    exact hmade.stocked hsupply (h.stocked i r hr)
  · have hj := (List.getElem?_eq_some_iff.1 hr').1
    exact (h.stocked j r' hr').fills_beside hfills.tree (h.apart i j hi hj hij) (h.apart j i hj hi (Ne.symm hij))

/-- **Checks preserve the stock.** -/
theorem Stock.preserves_checkBuild (hr : m.roots[i]? = some r) :
    (r.checkBuild store).Preserves (Root.Has (m.Stock P store ds place)) := by
  intro s h
  have hi := (List.getElem?_eq_some_iff.1 hr).1
  refine ((Ground.preserves_checkBuild hr s h.toGround).and
    (Root.checkBuild_yields (h.checkable hr) fun _ _ => h.plain hi _ (List.prefix_refl _))).mono ?_
  rintro out s' ⟨hground, hchecks, -⟩
  exact { hground with
    stocked := fun j r' hr' => (h.stocked j r' hr').tidies hchecks.tidies
      (h.files i j hi (List.getElem?_eq_some_iff.1 hr').1) }

/-- **Artifacts of the supply and checks preserve the stock.** -/
theorem conserves_stock (m : Importer) (P : Supply) (store : RecordStore) (ds : Nat → Place)
    (place : Option Place) : m.Conserves P store (m.Stock P store ds place) where
  artifact r hr l hl path hpath := by
    obtain ⟨i, hi⟩ := List.getElem?_of_mem hr
    exact Stock.preserves_makeArtifact hi ⟨l.1, hl, hpath⟩
  check r hr := by
    obtain ⟨i, hi⟩ := List.getElem?_of_mem hr
    exact Stock.preserves_checkBuild hi

/-- `m.Begins store ds place w`: the directories of an importer are absent, and they, the locks and the store do
not get in each other's way. -/
structure Begins (m : Importer) (store : RecordStore) (ds : Nat → Place) (place : Option Place) (w : Workspace) :
    Prop where
  /-- The place each path names: it does not pass that place. -/
  stands : ∀ i r, m.roots[i]? = some r → w.tree.Stands (fun v => Outside (ds i) v ∧ ¬ w.Shifts place v) r.dir (ds i)
  /-- Nothing stands there. -/
  absent : ∀ i, i < m.roots.length → ∀ v, ds i <+: v → w.tree.node? v = none
  /-- No directory is another one or stands in it. -/
  apart : ∀ i j, i < m.roots.length → j < m.roots.length → i ≠ j → ¬ ds i <+: ds j
  /-- Lock files lead somewhere. -/
  lock : ∀ i, i < m.roots.length → ∃ q, w.tree.Resolves (fun v => ¬ w.Shifts place v) (Lock.place (ds i)) q
  /-- Where the store stands. -/
  store : store.StandsAt w (fun v => ¬ w.Shifts place v) place
  /-- The locks and the store are kept elsewhere. -/
  files : ∀ i j, i < m.roots.length → j < m.roots.length → ∀ v, Root.CheckFiles w (ds i) place v →
    isBelow (ds j) v = false
  /-- A link that is put in place of the store is no directory. -/
  shifts : ∀ i, i < m.roots.length → ∀ v, w.Shifts place v → ¬ ds i <+: v

/-- Absent directories hold no wrong copies. -/
theorem Begins.stock (h : m.Begins store ds place w) (P : Supply) : m.Stock P store ds place w where
  sites i r hr := ⟨h.stands i r hr, fun v hv target hlink => by
    rw [h.absent i (List.getElem?_eq_some_iff.1 hr).1 v hv] at hlink; cases hlink⟩
  apart := h.apart
  lock := h.lock
  store := h.store
  files := h.files
  shifts := h.shifts
  rooted i hi v n hv hnode _ := by
    rw [h.absent i hi v (isBelow_iff.1 hv).1] at hnode; cases hnode
  stocked i r hr names c modified _ hnode := by
    rw [h.absent i (List.getElem?_eq_some_iff.1 hr).1 _ (List.prefix_append _ _)] at hnode; cases hnode

/-- A store in memory has no files. -/
theorem not_files_none {process : Nat} {v : Place} : ¬ RecordStore.Files none process v := by
  rintro ⟨p, hp, -⟩
  cases hp

/-- In an empty tree, the directory of the only root begins absent, right below the root of the tree. -/
theorem begins_alone {name : String} (hroots : m.roots = [r]) (hsteps : DiskPath.steps r.dir = [name])
    (hup : name ≠ "..") : m.Begins .memory (fun _ => [name]) none (.ofTree .empty) := by
  have hempty : ∀ v target, (Workspace.ofTree .empty).tree.node? v ≠ some (.link target) := by
    intro v target hlink
    by_cases hv : v = []
    · rw [hv, node?_root] at hlink
      cases hlink
    · simp [Workspace.ofTree, FileTree.empty, node?, hv] at hlink
  have hshifts : ∀ v, ¬ (Workspace.ofTree .empty).Shifts none v := fun v hv => not_files_none hv.1
  refine ⟨fun i r' hr' => ?_, fun i _ v hv => ?_, fun i j hi hj hij => ?_, fun i _ => ⟨_, .self (hempty _)⟩, .memory,
    fun i j _ _ v hv => ?_, fun i _ v hv => absurd hv (hshifts v)⟩
  · obtain ⟨-, rfl⟩ : i = 0 ∧ r = r' := by simpa [hroots, List.getElem?_singleton] using hr'
    have hstart : (Workspace.ofTree .empty).tree.start r.dir = [] := ite_self _
    refine ⟨⟨0, [], [], name, hsteps, hup, rfl, ?_⟩, hempty _⟩
    rw [hstart]
    exact .here
  · have hne : v ≠ [] := fun h => by simp [h] at hv
    simp [Workspace.ofTree, FileTree.empty, node?, hne]
  · exact absurd (by rw [hroots] at hi hj; simp at hi hj; omega) hij
  · rcases hv with hlock | ⟨u, hu, -⟩
    · obtain rfl := hlock.unique (.self (A := fun _ => True) (hempty _))
      rw [← Bool.not_eq_true]
      exact fun hbelow => Lock.not_prefix_place (by simp) (isBelow_iff.1 hbelow).1
    · exact absurd hu not_files_none

/-- **Whatever was asked for, everything extracted is a copy.** -/
theorem stock_after (hadmits : m.Admits P) {s : ImporterState} (h : m.Begins store ds place s.workspace)
    {qs : List Request} (hunits : ∀ q ∈ qs, ∀ u ∈ q.units, m.Supplies P u) :
    m.Stock P store ds place (m.after store s qs).workspace :=
  (conserves_stock m P store ds place).after hadmits hunits (h.stock P)

end Stock

end Importer

end LayeredBundles
