import LayeredBundles.Proofs.Rechecks
import LayeredBundles.Proofs.Relocking
import LayeredBundles.Proofs.Territories

/-! # Lock files

Whether two directories have one lock is decided by where the paths of their lock files lead. The path is told by the
directory that a directory stands in and by the text that its name is shown as, and where it leads by the links: taking
a lock makes directories and files, but no links.

* **`FileTree.LeadsTo`**, **`FileTree.LeadsAbove`** — where a path leads, and what it stands below, whatever stands on
  the way;
* **`Lock.same_path_iff`** — directories have the same lock file if they look alike;
* **`Lock.Guards`**, **`Lock.Shares`** — the place of the lock file of a directory, and two directories with one;
  **`Lock.tells`** says what directories have to do with their lock files;
* **`Lock.Took`** — all that taking a lock can do; **`Lock.acquire_took`** says that it is all. -/

namespace LayeredBundles

open DiskPath FileTree Fallible

/-! ## (1) Where paths lead -/

namespace FileTree

variable {t t' : FileTree} {path : String} {u v : Place}

/-- `t.LeadsTo path v`: the path leads to `v`, links followed, whatever stands there or on the way. -/
def LeadsTo (t : FileTree) (path : String) (v : Place) : Prop :=
  ∃ n, Leads t (fun _ => True) n (t.start path) (steps path) v

/-- `t.LeadsAbove path v`: to `v` leads what the path stands below. -/
def LeadsAbove (t : FileTree) (path : String) (v : Place) : Prop :=
  ∃ n xs, xs <+: steps path ∧ xs ≠ steps path ∧ Leads t (fun _ => True) n (t.start path) xs v

/-- A path leads to one place. -/
theorem LeadsTo.unique (h : t.LeadsTo path u) (h' : t.LeadsTo path v) : u = v :=
  (h.choose_spec.unique h'.choose_spec).2

/-- Where the links are the same, paths lead to the same places. -/
theorem SameLinks.leadsTo (h : SameLinks t t') (hpath : t.LeadsTo path v) : t'.LeadsTo path v := by
  obtain ⟨n, hway⟩ := hpath
  have hstart : t'.start path = t.start path := by rw [start, start, h.base]
  exact ⟨n, hstart ▸ hway.congr fun v target _ => h.link_iff v target⟩

/-- So does what they stand below. -/
theorem SameLinks.leadsAbove (h : SameLinks t t') (hpath : t.LeadsAbove path v) : t'.LeadsAbove path v := by
  obtain ⟨n, xs, hxs, hne, hway⟩ := hpath
  have hstart : t'.start path = t.start path := by rw [start, start, h.base]
  exact ⟨n, xs, hxs, hne, hstart ▸ hway.congr fun v target _ => h.link_iff v target⟩

/-- Without links the steps of a straight path lead straight down. -/
theorem LinkFree.leads_of_prefix (h : t.LinkFree) (hpath : IsStraight path) {xs : List String}
    (hxs : xs <+: steps path) : Leads t (fun _ => True) 0 (t.start path) xs xs := by
  have hstart : t.start path = [] := if_pos hpath.absolute
  have hway := h.leads [] xs
  rwa [walk_names fun s hs => hpath.names s (hxs.subset hs), List.nil_append, ← hstart] at hway

/-- Without links a straight path leads where its text says. -/
theorem LinkFree.leadsTo_iff (h : t.LinkFree) (hpath : IsStraight path) : t.LeadsTo path v ↔ v = steps path := by
  have hway : t.LeadsTo path (steps path) := ⟨0, h.leads_of_prefix hpath (List.prefix_refl _)⟩
  exact ⟨fun hv => hv.unique hway, fun hv => hv ▸ hway⟩

/-- Without links a straight path stands below what its text says. -/
theorem LinkFree.leadsAbove_iff (h : t.LinkFree) (hpath : IsStraight path) :
    t.LeadsAbove path v ↔ v <+: steps path ∧ v ≠ steps path := by
  constructor
  · rintro ⟨n, xs, hxs, hne, hway⟩
    obtain rfl := (hway.unique (h.leads_of_prefix hpath hxs)).2
    exact ⟨hxs, hne⟩
  · rintro ⟨hv, hne⟩
    exact ⟨0, v, hv, hne, h.leads_of_prefix hpath hv⟩

/-- **What a path stands below is somewhere else**, as long as nothing stands there. -/
theorem LeadsAbove.ne (h : t.LeadsAbove path u) (hgrounded : t.Grounded) (hstraight : IsStraight path)
    (hnone : t.node? u = none) : ¬ t.LeadsTo path u := by
  intro hto
  obtain ⟨n, xs, ⟨ys, hys⟩, hne, hway⟩ := h
  have hnames : ∀ s ∈ ys, s ≠ ".." := fun s hs => hstraight.names s (hys ▸ List.mem_append_right _ hs)
  have hlinks : ∀ v, u <+: v → v <+: u ++ ys → v ≠ u → ∀ target, t.node? v ≠ some (.link target) := by
    intro v hv _ hvu target hlink
    have habove := hgrounded.above (isBelow_iff.2 ⟨hv, hvu⟩) hlink
    rw [hnone] at habove
    cases habove
  -- From there the rest of the path leads straight down.
  have hrest : Leads t (fun _ => True) 0 u ys (u ++ ys) := leads_names hnames (fun _ _ _ _ => trivial) hlinks
  have hself : u = u ++ ys := hto.unique ⟨n + 0, hys ▸ hway.append hrest⟩
  have hnil : ys = [] := List.append_cancel_left (hself.symm.trans (List.append_nil u).symm)
  exact hne (by rw [← hys, hnil, List.append_nil])

end FileTree

/-! ## (2) Lock files -/

/-- The root has no name. -/
theorem DiskPath.fileName?_of_root {path : String} (h : steps path = []) : fileName? path = none := by
  rcases hname : fileName? path with _ | name
  · rfl
  · obtain ⟨-, xs, hsteps⟩ := fileName?_eq_some hname
    rw [h] at hsteps
    simp at hsteps

namespace DiskPath.IsStraight

variable {path other : String}

/-- Names are told by their components. -/
theorem component_injective : Function.Injective component := by
  intro a b hab
  unfold component at hab
  split at hab <;> split at hab <;> simp_all

/-- A straight path has the root and its steps for components. -/
theorem components_eq (h : IsStraight path) : components path = .root :: (steps path).map component := if_pos h.absolute

/-- Straight paths are the same when their steps are. -/
theorem same_iff (h : IsStraight path) (h' : IsStraight other) : same path other = true ↔ steps path = steps other := by
  rw [same, decide_eq_true_eq, h.components_eq, h'.components_eq, List.cons.injEq, and_iff_right rfl]
  exact (List.map_injective_iff.2 component_injective).eq_iff

end DiskPath.IsStraight

namespace Lock

variable [Charset] {t t' : FileTree} {dir dir' lock lock' : String} {p q : Place}

/-- Without a parent or a name there is no lock file. -/
theorem path_of_none (h : parent? dir = none ∨ fileName? dir = none) : path dir = .error (.noParent dir) := by
  rcases h with h | h <;> simp [path, h]

/-- The root of the file system has no lock file, since it has no parent. -/
theorem path_of_root (hroot : steps dir = []) : path dir = .error (.noParent dir) :=
  path_of_none (.inr (fileName?_of_root hroot))

/-- Every other directory has one. -/
theorem exists_path (h : IsStraight dir) (hne : steps dir ≠ []) : ∃ lock, path dir = .ok lock := by
  obtain ⟨xs, name, hsteps⟩ := (List.eq_nil_or_concat (steps dir)).resolve_left hne
  rw [List.concat_eq_append] at hsteps
  obtain ⟨front, hparent, -, habs⟩ := exists_parent hsteps
  have hname : fileName? dir = some name := fileName?_of_steps hsteps (h.names name (by simp [hsteps]))
  have hfront : front ≠ "" := by
    rintro rfl
    rw [h.absolute] at habs
    exact absurd habs (by decide)
  exact ⟨_, by rw [path, hparent, hname]; exact if_neg hfront⟩

/-- `Guards t dir p`: the path of the lock file of a directory leads to `p`. -/
def Guards (t : FileTree) (dir : String) (p : Place) : Prop := ∃ lock, path dir = .ok lock ∧ t.LeadsTo lock p

/-- `Shares t dir dir'`: the directories have one lock file. -/
def Shares (t : FileTree) (dir dir' : String) : Prop := ∃ p, Guards t dir p ∧ Guards t dir' p

/-- A directory is guarded by one file. -/
theorem Guards.unique (h : Guards t dir p) (h' : Guards t dir q) : p = q := by
  obtain ⟨lock, hlock, hto⟩ := h
  obtain ⟨lock', hlock', hto'⟩ := h'
  cases hlock.symm.trans hlock'
  exact hto.unique hto'

/-- It stays guarded by that file where the links are the same. -/
theorem Guards.sameLinks (h : Guards t dir p) (hlinks : SameLinks t t') : Guards t' dir p :=
  h.imp fun _ hto => hto.imp_right hlinks.leadsTo

/-- Directories that are the same look alike. -/
theorem alike_of_same (h : IsStraight dir) (h' : IsStraight dir') (hsame : same dir dir' = true) :
    Alike (steps dir) (steps dir') :=
  (h.same_iff h').1 hsame ▸ ⟨rfl, rfl⟩

/-- Where the names of directories are text, only those that are the same look alike. -/
theorem alike_iff_same (h : IsStraight dir) (h' : IsStraight dir')
    (htext : ∀ name ∈ (steps dir).getLast?, Charset.IsText name)
    (htext' : ∀ name ∈ (steps dir').getLast?, Charset.IsText name) :
    Alike (steps dir) (steps dir') ↔ same dir dir' = true :=
  ⟨fun halike => (h.same_iff h').2 (halike.eq htext htext'), alike_of_same h h'⟩

variable [LawfulCharset]

/-- **Directories have the same lock file if they look alike.** -/
theorem same_path_iff (h : IsStraight dir) (h' : IsStraight dir') (hlock : path dir = .ok lock)
    (hlock' : path dir' = .ok lock') : same lock lock' = true ↔ Alike (steps dir) (steps dir') := by
  obtain ⟨hstraight, hsteps, hne⟩ := straight_path h hlock
  obtain ⟨hstraight', hsteps', hne'⟩ := straight_path h' hlock'
  rw [hstraight.same_iff hstraight', hsteps, hsteps', place_eq_iff hne hne']

/-- **A lock file is neither its directory nor below it.** -/
theorem not_prefix_path (h : IsStraight dir) (hlock : path dir = .ok lock) :
    ¬ components dir <+: components lock := by
  obtain ⟨hstraight, hsteps, hne⟩ := straight_path h hlock
  rw [h.components_eq, hstraight.components_eq, List.cons_prefix_cons, and_iff_right rfl,
    List.prefix_map_iff_of_injective DiskPath.IsStraight.component_injective, hsteps]
  exact not_prefix_place hne

/-- Directories that look alike have one lock file. -/
theorem Guards.of_alike (h : IsStraight dir) (h' : IsStraight dir') (halike : Alike (steps dir) (steps dir'))
    (hp : Guards t dir p) : Guards t dir' p := by
  obtain ⟨lock, hlock, n, hway⟩ := hp
  obtain ⟨hstraight, hsteps, hne⟩ := straight_path h hlock
  have hne' : steps dir' ≠ [] := by
    intro hnil
    have hlast := halike.2
    rw [hnil, List.getLast?_nil, Option.map_none, Option.map_eq_none_iff, List.getLast?_eq_none_iff] at hlast
    exact hne hlast
  obtain ⟨lock', hlock'⟩ := exists_path h' hne'
  obtain ⟨hstraight', hsteps', -⟩ := straight_path h' hlock'
  have hstart : t.start lock' = t.start lock := by
    rw [start, start, if_pos hstraight.absolute, if_pos hstraight'.absolute]
  refine ⟨lock', hlock', n, ?_⟩
  rw [hstart, hsteps', ← (place_eq_iff hne hne').2 halike, ← hsteps]
  exact hway

/-- **Where there are no links, only directories that look alike have one lock file.** -/
theorem shares_iff_of_linkFree (hlinks : t.LinkFree) (h : IsStraight dir) (h' : IsStraight dir')
    (hlock : path dir = .ok lock) (hlock' : path dir' = .ok lock') :
    Shares t dir dir' ↔ Alike (steps dir) (steps dir') := by
  have hguards : ∀ {dir p}, IsStraight dir → Guards t dir p → p = place (steps dir) := by
    rintro dir p hdir ⟨lock, hlock, hto⟩
    obtain ⟨hstraight, hsteps, -⟩ := straight_path hdir hlock
    exact ((hlinks.leadsTo_iff hstraight).1 hto).trans hsteps
  obtain ⟨hstraight, -, hne⟩ := straight_path h hlock
  obtain ⟨-, -, hne'⟩ := straight_path h' hlock'
  constructor
  · rintro ⟨p, hp, hp'⟩
    exact (place_eq_iff hne hne').1 ((hguards h hp).symm.trans (hguards h' hp'))
  · intro halike
    have hp : Guards t dir (steps lock) := ⟨lock, hlock, (hlinks.leadsTo_iff hstraight).2 rfl⟩
    exact ⟨_, hp, hp.of_alike h h' halike⟩

/-- What directories have to do with their lock files. -/
structure Tells (t : FileTree) : Prop where
  /-- They have the same one if they look alike. -/
  same_iff : ∀ dir dir' lock lock', IsStraight dir → IsStraight dir' → path dir = .ok lock → path dir' = .ok lock' →
    (same lock lock' = true ↔ Alike (steps dir) (steps dir'))
  /-- Those that are the same look alike. -/
  of_same : ∀ dir dir', IsStraight dir → IsStraight dir' → same dir dir' = true → Alike (steps dir) (steps dir')
  /-- Where their names are text, no others do. -/
  alike_iff : ∀ dir dir', IsStraight dir → IsStraight dir' → (∀ name ∈ (steps dir).getLast?, Charset.IsText name) →
    (∀ name ∈ (steps dir').getLast?, Charset.IsText name) →
    (Alike (steps dir) (steps dir') ↔ same dir dir' = true)
  /-- The lock file is neither the directory nor below it. -/
  outside : ∀ dir lock, IsStraight dir → path dir = .ok lock → ¬ components dir <+: components lock
  /-- Without links only those that look alike have one. -/
  shares_iff : t.LinkFree → ∀ dir dir' lock lock', IsStraight dir → IsStraight dir' → path dir = .ok lock →
    path dir' = .ok lock' → (Shares t dir dir' ↔ Alike (steps dir) (steps dir'))
  /-- Without links a directory is where its path says, and stands below what that says. -/
  leads_iff : t.LinkFree → ∀ dir v, IsStraight dir →
    (t.LeadsTo dir v ↔ v = steps dir) ∧ (t.LeadsAbove dir v ↔ v <+: steps dir ∧ v ≠ steps dir)

/-- **Lock files tell what their directories look like**, on any tree. -/
theorem tells (t : FileTree) : Tells t where
  same_iff _ _ _ _ := same_path_iff
  of_same _ _ := alike_of_same
  alike_iff _ _ := alike_iff_same
  outside _ _ := not_prefix_path
  shares_iff hlinks _ _ _ _ := shares_iff_of_linkFree hlinks
  leads_iff hlinks _ _ hdir := ⟨hlinks.leadsTo_iff hdir, hlinks.leadsAbove_iff hdir⟩

end Lock

/-! ## (3) Taking a lock -/

namespace Workspace

variable {w w' w₀ : Workspace} {path dir lock : String} {v : Place}

/-- The files of all locks that are held stand. -/
def LocksStand (w : Workspace) : Prop := ∀ l ∈ w.held, ∃ c m, w.tree.node? l.place = some (.file c m)

/-- As long as the files stand, the locks are held. -/
theorem LocksStand.held_withTree (h : w.LocksStand) {t : FileTree} (hgrows : Grows w.tree t) :
    (w.withTree t).held = w.held := by
  refine List.filter_eq_self.2 fun l hl => ?_
  obtain ⟨c, m, hfile⟩ := h l hl
  rw [hgrows.node_of_some hfile]
  rfl

/-- `w.Readies dir w'`: directories were made, where what `dir` stands below leads, and the locks are as they were. -/
structure Readies (dir : String) (w w' : Workspace) : Prop extends w.Extends w' where
  /-- The locks that are held. -/
  held : w'.held = w.held
  /-- The next ticket. -/
  ticket : w'.ticket = w.ticket
  /-- Directories that are new. -/
  made : ∀ v, w'.tree.node? v = some .directory → w.tree.node? v = some .directory ∨ w.tree.LeadsAbove dir v

/-- A workspace that stays as it is is ready for any lock. -/
theorem Readies.refl (htree : w.tree.IsTree) (dir : String) : w.Readies dir w :=
  ⟨.refl htree, rfl, rfl, fun _ => .inl⟩

/-- All locks still stand on files once directories were made. -/
theorem Readies.locksStand (h : w₀.Readies dir w) (hstand : w₀.LocksStand) : w.LocksStand := by
  intro l hl
  obtain ⟨c, m, hfile⟩ := hstand l (h.held ▸ hl)
  exact ⟨c, m, h.grows.node_of_some hfile⟩

variable [Charset]

/-- A directory is made where its path leads. -/
theorem leadsTo_of_createDirectory {t t' : FileTree} (h : t.createDirectory path = .ok t')
    (hv : t'.node? v = some .directory) : t.node? v = some .directory ∨ t.LeadsTo path v := by
  unfold createDirectory at h
  split at h
  · cases h
  next p slash hlocate =>
  split at h
  · cases h
  next hnone =>
  cases h
  by_cases hvp : v = p
  · subst hvp
    obtain ⟨n, hway⟩ := ((arrives_of_locate hlocate).of_plain (by simp [hnone])).exists_leads
    have hstart : t.start (bare path) = t.start path := by rw [start, start, isAbsolute_bare]
    have hsteps : (segments (bare path)).filter counts = steps path := steps_bare path
    exact .inr ⟨n, hstart ▸ hsteps ▸ hway⟩
  · rw [node?_bind_of_ne t _ hvp] at hv
    exact .inl hv

/-- Making a directory that `dir` stands below. -/
theorem readies_createDirectory (hstand : w₀.LocksStand) (hsteps : steps path <+: steps dir)
    (hne : steps path ≠ steps dir) (habs : isAbsolute path = isAbsolute dir) :
    (change (·.createDirectory path)).Preserves (w₀.Readies dir) := by
  intro w hw
  have hextends := createDirectory_extends w path w (.refl hw.isTree)
  rw [Yields, outcome_change] at hextends ⊢
  split
  · next t ht =>
    rw [ht] at hextends
    have hheld := (hw.locksStand hstand).held_withTree hextends.grows
    refine ⟨hw.toExtends.trans hextends, hheld.trans hw.held, hw.ticket, fun v hv => ?_⟩
    rcases leadsTo_of_createDirectory ht hv with hold | ⟨n, hway⟩
    · exact hw.made v hold
    · have hstart : w₀.tree.start dir = w.tree.start path := by rw [start, start, hw.grows.base, habs]
      refine .inr ⟨n, _, hsteps, hne, hstart ▸ hway.congr fun v target _ => ?_⟩
      exact (hw.grows.sameLinks.link_iff v target).symm
  · exact hw

/-- Making what a directory stands below. -/
theorem readies_createDirectories (hstand : w₀.LocksStand) {front : String} (hfront : steps front <+: steps dir)
    (hne : steps front ≠ steps dir) (habs : isAbsolute front = isAbsolute dir) :
    (createDirectories front).Preserves (w₀.Readies dir) := by
  refine preserves_createLineage fun path hpath => ?_
  obtain ⟨hsteps, habs'⟩ := prefix_of_mem_lineage hpath
  refine readies_createDirectory hstand (hsteps.trans hfront) (fun heq => hne ?_) (habs'.trans habs)
  exact hfront.eq_of_length_le (heq ▸ hsteps.length_le)

end Workspace

/-- A file that is made sure of is all that may be new. -/
theorem FileTree.grows_of_ensureFile [Charset] {t t' : FileTree} {path : String} {p : Place} {modified : Instant}
    (h : t.ensureFile path modified = .ok (p, t')) :
    Grows t t' ∧ ∀ v, t'.node? v = some .directory → t.node? v = some .directory := by
  unfold ensureFile at h
  split at h
  · cases h
  · cases h
    exact ⟨.refl t, fun _ hv => hv⟩
  · next q hfile =>
    cases h
    obtain ⟨-, -, hnone, -⟩ := exists_of_locateFile hfile
    have hp : p ≠ [] := by
      rintro rfl
      simp at hnone
    refine ⟨grows_bind hnone.symm (.inr ⟨modified, rfl⟩), fun v hv => ?_⟩
    rw [node?_bind t hp] at hv
    split at hv
    · cases hv
    · exact hv

namespace Lock

variable [Charset] {w w' w₁ : Workspace} {dir lock : String} {timeout : Nat} {r : Except LockFailure Nat}

/-- `Took w dir lock timeout r w'`: how taking the lock of a directory ends. -/
inductive Took (w : Workspace) (dir lock : String) (timeout : Nat) : Except LockFailure Nat → Workspace → Prop
  /-- The files do not allow it. -/
  | refused {w' : Workspace} (cause : FileError) (held : w'.held = w.held) (ticket : w'.ticket = w.ticket) :
      Took w dir lock timeout (.error (.io cause)) w'
  /-- Somebody has it. -/
  | waited {w' : Workspace} (p : Place) (guards : Guards w.tree dir p) (taken : isHeld w p = true)
      (held : w'.held = w.held) (ticket : w'.ticket = w.ticket) :
      Took w dir lock timeout (.error (.timeout lock timeout)) w'
  /-- It is taken. -/
  | took {w' : Workspace} (p : Place) (guards : Guards w.tree dir p) (free : isHeld w p = false)
      (file : ∃ c m, w'.tree.node? p = some (.file c m)) (held : w'.held = ⟨w.ticket, p⟩ :: w.held)
      (ticket : w'.ticket = w.ticket + 1) : Took w dir lock timeout (.ok w.ticket) w'

/-- What taking a lock leaves: a tree that has grown, with directories that are new where what `dir` stands below
leads. -/
structure Leaves (w : Workspace) (dir : String) (w' : Workspace) : Prop extends w.Extends w' where
  /-- Directories that are new. -/
  made : ∀ v, w'.tree.node? v = some .directory → w.tree.node? v = some .directory ∨ w.tree.LeadsAbove dir v

/-- Taking the lock, once what the directory stands below is there. -/
theorem take_took (h : w.Readies dir w₁) (hstand : w.LocksStand) (hlock : path dir = .ok lock) :
    (take lock timeout).Yields w₁ fun r w' => Leaves w dir w' ∧ Took w dir lock timeout r w' := by
  have hextends := Workspace.take_extends w lock timeout w₁ h.toExtends
  rw [Yields, take, outcome_ofOutcome] at hextends ⊢
  rcases hfile : w₁.tree.ensureFile lock w₁.clock with cause | ⟨p, t⟩
  · exact ⟨⟨h.toExtends, h.made⟩, .refused cause h.held h.ticket⟩
  rw [hfile] at hextends
  obtain ⟨-, hlocate, hnode⟩ := exists_of_ensureFile hfile
  obtain ⟨hgrows, hdirs⟩ := grows_of_ensureFile hfile
  have hheld : (w₁.withTree t).held = w.held := ((h.locksStand hstand).held_withTree hgrows).trans h.held
  have hguards : Guards w.tree dir p :=
    ⟨lock, hlock, (h.grows.trans hgrows).sameLinks.symm.leadsTo (arrives_of_locate hlocate).exists_leads⟩
  have hmade : ∀ v, t.node? v = some .directory → w.tree.node? v = some .directory ∨ w.tree.LeadsAbove dir v :=
    fun v hv => h.made v (hdirs v hv)
  have hticket : (w₁.withTree t).ticket = w.ticket := h.ticket
  have hsame : isHeld (w₁.withTree t) p = isHeld w p := by rw [isHeld, hheld, isHeld]
  cases hfree : isHeld w p with
  | true =>
    simp only [hsame, hfree, ↓reduceIte] at hextends ⊢
    exact ⟨⟨hextends, hmade⟩, .waited p hguards hfree hheld hticket⟩
  | false =>
    simp only [hsame, hfree, Bool.false_eq_true, ↓reduceIte, hticket, hheld] at hextends ⊢
    exact ⟨⟨hextends, hmade⟩, .took p hguards hfree hnode rfl rfl⟩

/-- What was taken is so still, when the tree has grown and nobody else has locked its file. -/
theorem Taken.later {A : Place → Prop} {d q : Place} {ticket : Nat} (h : Taken A lock d q ticket w)
    (hgrows : Grows w.tree w'.tree) (hheld : ∀ l ∈ w'.held, l.ticket ≠ ticket → l ∈ w.held ∨
      l.place ≠ q ∧ (w'.tree.node? l.place).any Node.isFile = true) : Taken A lock d q ticket w' := by
  have hretains (B : Place → Prop) : Retains B w.tree w'.tree := by
    refine ⟨hgrows.base, fun v _ hpass => ?_⟩
    rcases hgrows.node v with hsame | ⟨hnone, -⟩
    · exact hsame
    · exact absurd hpass (not_passable_of_none hnone)
  obtain ⟨c, m, hfile⟩ := h.file
  have hfile' := hgrows.node_of_some hfile
  obtain ⟨n, hway⟩ := (arrives_of_locate h.locate).exists_leads
  refine ⟨h.ends, (hretains A).reaches h.reaches, (hretains _).locate (by simp [hfile']) hway h.locate, ⟨c, m, hfile'⟩,
    hgrows.node_of_some h.parent, fun l hl hticket => ?_⟩
  rcases hheld l hl hticket with hold | hnew
  · obtain ⟨hne, hisFile⟩ := h.alone l hold hticket
    obtain ⟨n, hn, hisFile⟩ := (Option.any_eq_true _ _).1 hisFile
    exact ⟨hne, (Option.any_eq_true _ _).2 ⟨n, hgrows.node_of_some hn, hisFile⟩⟩
  · exact hnew

variable [LawfulCharset]

/-- **All that taking the lock of a directory can do.** -/
theorem acquire_took (htree : w.tree.IsTree) (hstand : w.LocksStand) (hlock : path dir = .ok lock) :
    (acquire dir timeout).Yields w fun r w' => Leaves w dir w' ∧ Took w dir lock timeout r w' := by
  obtain ⟨front, xs, name, hsteps, hfrontsteps, hfrontabs, -, hacquire⟩ := exists_acquire_eq hlock timeout
  have hready : (Workspace.createDirectories front).Yields w fun _ w' => w.Readies dir w' := by
    refine Workspace.readies_createDirectories hstand ?_ ?_ hfrontabs w (.refl htree dir)
    · rw [hfrontsteps, hsteps]
      exact List.prefix_append _ _
    · simp [hfrontsteps, hsteps]
  have hmade : ((Workspace.createDirectories front).failingAs .io).Yields w fun r w' =>
      w.Readies dir w' ∧ ∀ e, r = .error e → ∃ cause, e = LockFailure.io cause := by
    refine yields_failingAs.2 (hready.mono fun r w' h => ⟨h, fun e he => ?_⟩)
    cases r <;> cases he
    exact ⟨_, rfl⟩
  rw [hacquire]
  refine hmade.bind (fun _ w' h => take_took h.1 hstand hlock) fun e w' h => ?_
  obtain ⟨cause, rfl⟩ := h.2 e rfl
  exact ⟨⟨h.1.toExtends, h.1.made⟩, .refused cause h.1.held h.1.ticket⟩

/-- **Whatever comes of it**, what stands below nothing else is not made. -/
theorem acquire_leaves (htree : w.tree.IsTree) (hstand : w.LocksStand) (hdir : IsStraight dir) :
    (acquire dir timeout).Yields w fun _ w' => Leaves w dir w' := by
  by_cases hroot : steps dir = []
  · rw [Yields, acquire_of_path (path_of_root hroot)]
    exact ⟨.refl htree, fun _ => .inl⟩
  · obtain ⟨lock, hlock⟩ := exists_path hdir hroot
    exact (acquire_took htree hstand hlock).mono fun _ _ h => h.1

/-- Where the path of a lock file leads is told by the name it ends with. -/
theorem named_of_leadsTo {t : FileTree} {p : Place} (hlock : path dir = .ok lock) (hto : t.LeadsTo lock p) :
    ∃ d, t.Named (fun _ => True) lock (place d) ∧ t.Resolves (fun _ => True) (place d) p := by
  obtain ⟨xs, name, hname, -, hsteps, -, segs, hsegs⟩ := exists_of_path hlock
  obtain ⟨n, hway⟩ := hto
  rw [hsteps] at hway
  obtain ⟨k, m, q, hfront, hlast⟩ := hway.divide
  have hup := (isName_fileName hname.slash).up
  refine ⟨q ++ [name], ?_, ?_⟩ <;> rw [place_concat] <;> generalize fileName name = last at *
  · exact ⟨⟨k, xs, q, _, hsteps, hup, rfl, hfront⟩, fun _ _ => ⟨segs, _, hsegs, List.getLast?_concat⟩⟩
  · cases hlast with
    | up => exact absurd rfl hup
    | down _ _ hplain hnext =>
      cases hnext
      exact .self hplain
    | through _ _ hlink hnext =>
      rw [List.append_nil] at hnext
      exact .through hlink (by rwa [List.dropLast_concat]) trivial

end Lock

end LayeredBundles
