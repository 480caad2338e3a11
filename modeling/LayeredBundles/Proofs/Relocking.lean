import LayeredBundles.Proofs.Passages

/-! # A lock that is taken again

Once a lock was taken and given back it can be taken again, provided that its file can still be reached and that the
directory in which it stands was not removed. Nobody else takes locks meanwhile: what is done under a lock ends some
of those that are held, but begins none.

* **`Workspace.Frees`** — no lock is held that was not; this holds of whatever is done under a lock;
* **`Lock.Taken`** — what is known of a lock that was taken; **`Lock.taken_of_acquire`** says that it is;
* **`Lock.acquire_again`** — a lock is taken whose file is reached and that nobody holds;
  **`Lock.Taken.acquire_again`** — so is one that was taken before;
* **`Lock.acquire_in_vain`** — a lock that is held is not taken. -/

namespace LayeredBundles

open FileTree Fallible

/-! ## (1) Locks that are held -/

namespace Workspace

variable {w w' w'' w₀ : Workspace}

/-- `w.Frees w'`: no lock is held that was not. -/
def Frees (w w' : Workspace) : Prop := ∀ l ∈ w'.held, l ∈ w.held

/-- A workspace that stays as it is has taken no lock. -/
theorem Frees.refl (w : Workspace) : w.Frees w := fun _ => id

/-- A change of the tree takes none. -/
theorem Frees.withTree (h : w.Frees w') (t : FileTree) : w.Frees (w'.withTree t) := fun l hl =>
  h l (List.mem_filter.1 hl).1

/-- A change of the tree ends locks, and begins none. -/
theorem frees_change (w₀ : Workspace) (f : FileTree → Except FileError FileTree) : (change f).Preserves w₀.Frees := by
  intro w hw
  rw [Yields, outcome_change]
  split
  · exact hw.withTree _
  · exact hw

/-- Writing a file takes no lock. -/
theorem frees_write (w₀ : Workspace) (path : String) (contents : ByteArray) :
    (write path contents).Preserves w₀.Frees := fun w hw => frees_change w₀ (·.write path contents w.clock) w hw

/-- Nor does moving one. -/
theorem frees_move (w₀ : Workspace) (source target : String) : (move source target).Preserves w₀.Frees := by
  intro w hw
  rw [Yields, move, outcome_ofOutcome]
  rcases w.tree.move source target with x | t
  · exact hw
  · exact fun l hl => hw l (List.mem_filter.1 (List.mem_filter.1 hl).1).1

/-- Nor does creating directories. -/
theorem frees_createDirectories (w₀ : Workspace) (path : String) : (createDirectories path).Preserves w₀.Frees :=
  preserves_createLineage fun p _ => frees_change w₀ (·.createDirectory p)

/-- Nor does discarding a file. -/
theorem frees_discard {ε : Type} (w₀ : Workspace) (path : String) : (discard path : Work ε Unit).Preserves w₀.Frees :=
  (frees_change w₀ (·.remove path)).attempt.bind fun _ => preserves_pure ()

/-- Nor does removing a tree. -/
theorem frees_removeDirectories (w₀ : Workspace) (path : String) : (removeDirectories path).Preserves w₀.Frees :=
  preserves_removals (frees_change w₀ _) (frees_change w₀ _) (frees_change w₀ _)

end Workspace

open Workspace

/-- Nor does removing all that was extracted. -/
theorem Extraction.frees_removeAll (w₀ : Workspace) (dir : String) : (removeAll dir).Preserves w₀.Frees :=
  preserves_removeAll (frees_removeDirectories w₀ dir)

/-- Nor does reading the records. -/
theorem RecordStore.frees_readRecords (w₀ : Workspace) (path : String) : (readRecords path).Preserves w₀.Frees := by
  refine Preserves.bind (Preserves.attempt (preserves_ask _ _)) fun out => ?_
  split
  · exact preserves_pure _
  · exact preserves_pure _
  · exact preserves_throw _

/-- Nor does putting one into a store. -/
theorem RecordStore.frees_put (store : RecordStore) (w₀ : Workspace) (root : String) (record : BuildRecord) :
    (store.put root record).Preserves w₀.Frees := by
  cases store with
  | memory => exact preserves_modify fun _ hw => hw
  | file path =>
    refine (frees_readRecords w₀ path).bind fun rs => ?_
    refine ((frees_createDirectories w₀ _).failingAs _).bind fun _ => ?_
    split
    · exact preserves_throw _
    · refine preserves_get.bind fun w => ?_
      have hreplace (temporary : String) (contents : ByteArray) :
          (replaceFile temporary path contents).Preserves w₀.Frees :=
        (frees_write w₀ temporary contents).bind fun _ => frees_move w₀ temporary path
      refine (hreplace _ _).attempt.bind fun out => ?_
      split
      · exact preserves_pure _
      · exact (frees_discard w₀ _).bind fun _ => preserves_throw _

/-! ## (2) What no change of the tree reaches -/

/-- Removing all that was extracted changes the tree alone. -/
theorem Extraction.removeAll_keeps (w₀ : Workspace) (dir : String) : (removeAll dir).Preserves w₀.Keeps :=
  preserves_removeAll (removeDirectories_keeps w₀ dir)

/-- So does removing temporary files. -/
theorem Extraction.removeTemporaries_keeps (w₀ : Workspace) (dir : String) :
    (removeTemporaries dir).Preserves w₀.Keeps := fun w hw => hw.trans (keeps_withTree w _)

/-! ## (3) Taking a lock -/

/-- A path that leads to a file leads there without a slash at its end. -/
theorem FileTree.locate_of_locateFile [Charset] {t : FileTree} {path : String} {p : Place} {n : Option Node}
    (h : t.locateFile path = .ok (p, n)) : t.locate true path = .ok (p, false) ∧ Text.endsWith "/" path = false := by
  unfold locateFile at h
  split at h
  · split at h <;> cases h
  next hends =>
  refine ⟨?_, by simpa using hends⟩
  split at h
  · cases h
  next v slash hlocate =>
  split at h
  · cases h
  · cases h
  · next hnode =>
    cases h
    have hfollow := hlocate
    rw [(clean_of_locate hlocate).locate_eq] at hfollow
    rw [hlocate, slash_of_followLinks hfollow hnode]
  · split at h
    · cases h
    · next hslash =>
      cases h
      rw [hlocate, Bool.not_eq_true] at *
      rw [hslash]

/-- A file that was made sure of is there, and its path leads to it. -/
theorem FileTree.exists_of_ensureFile [Charset] {t t' : FileTree} {path : String} {p : Place} {modified : Instant}
    (h : t.ensureFile path modified = .ok (p, t')) : Text.endsWith "/" path = false ∧
      t'.locate true path = .ok (p, false) ∧ ∃ c m, t'.node? p = some (.file c m) := by
  unfold ensureFile at h
  split at h
  · cases h
  · next v n hfile =>
    cases h
    obtain ⟨-, -, hnode, hdir, hlink⟩ := exists_of_locateFile hfile
    obtain ⟨hlocate, hends⟩ := locate_of_locateFile hfile
    refine ⟨hends, hlocate, ?_⟩
    cases n with
    | directory => exact absurd rfl hdir
    | file c m => exact ⟨c, m, hnode.symm⟩
    | link target => exact absurd rfl (hlink target)
  · next v hfile =>
    cases h
    obtain ⟨-, -, hnode, -, -⟩ := exists_of_locateFile hfile
    obtain ⟨hlocate, hends⟩ := locate_of_locateFile hfile
    have hp : p ≠ [] := by
      rintro rfl
      rw [node?_root] at hnode
      cases hnode
    have hnew : (t.bind p (.file .empty modified)).node? p = some (.file .empty modified) := by
      rw [node?_bind t hp, if_pos rfl]
    -- A new file is no place that was passed on the way to it.
    have hretains : Retains (fun _ => True) t (t.bind p (.file .empty modified)) := by
      refine ⟨rfl, fun v _ hpass => node?_bind_of_ne t _ ?_⟩
      rintro rfl
      exact not_passable_of_none hnode.symm hpass
    obtain ⟨n, hway⟩ := (arrives_of_locate hlocate).exists_leads
    exact ⟨hends, hretains.locate (by simp [hnew]) hway hlocate, _, _, hnew⟩

namespace Lock

variable [Charset] {w w' : Workspace} {A B : Place → Prop} {dir lock : String} {d p q : Place} {timeout ticket : Nat}

/-- Taking a lock keeps what no change of the tree reaches. -/
theorem acquire_keeps (w₀ : Workspace) (dir : String) (timeout : Nat) : (acquire dir timeout).Preserves w₀.Keeps := by
  have htake (lock : String) : (take lock timeout).Preserves w₀.Keeps := by
    intro w hw
    rw [Yields, take, outcome_ofOutcome]
    split
    · exact hw
    · next t _ =>
      have hnew := hw.trans (Workspace.keeps_withTree w t)
      dsimp only
      split
      · exact hnew
      · exact ⟨hnew.records, hnew.process, hnew.clock, hnew.serial⟩
  refine (preserves_ofExcept _).bind fun lock => ?_
  split
  · exact ((createDirectories_keeps w₀ _).failingAs _).bind fun _ => htake lock
  · exact (preserves_pure ()).bind fun _ => htake lock

/-- What is known of a lock that was taken: its file is where its path leads, and no others hold it. -/
structure Taken (A : Place → Prop) (lock : String) (d q : Place) (ticket : Nat) (w : Workspace) : Prop where
  /-- The path is that of a file. -/
  ends : Text.endsWith "/" lock = false
  /-- The way to it is open. -/
  reaches : w.tree.Reaches A lock (place d)
  /-- Where it leads. -/
  locate : w.tree.locate true lock = .ok (q, false)
  /-- There is a file. -/
  file : ∃ c m, w.tree.node? q = some (.file c m)
  /-- What it stands in. -/
  parent : w.tree.node? d.dropLast = some .directory
  /-- Locks that others hold are on other files. -/
  alone : ∀ l ∈ w.held, l.ticket ≠ ticket → l.place ≠ q ∧ (w.tree.node? l.place).any Node.isFile = true

/-- What its path leads to is a file. -/
theorem Taken.isFile (h : Taken A lock d q ticket w) : ∀ n, w.tree.node? q = some n → n.isFile = true := by
  obtain ⟨c, m, hfile⟩ := h.file
  rw [hfile]
  rintro n ⟨⟩
  rfl

/-- Where the path leads, there is the file, or nothing and then a new one. -/
theorem exists_ensureFile (hends : Text.endsWith "/" lock = false) (hlocate : w.tree.locate true lock = .ok (q, false))
    (hfile : ∀ n, w.tree.node? q = some n → n.isFile = true) :
    ∃ t, w.tree.ensureFile lock w.clock = .ok (q, t) ∧ Grows w.tree t := by
  rcases hnode : w.tree.node? q with _ | n
  · refine ⟨_, ?_, grows_bind hnode (.inr ⟨w.clock, rfl⟩)⟩
    simp [ensureFile, locateFile, hends, hlocate, hnode]
  · have hisFile := hfile n hnode
    cases n with
    | file c m => exact ⟨w.tree, by simp [ensureFile, locateFile, hends, hlocate, hnode], .refl _⟩
    | directory | link => cases hisFile

variable [LawfulCharset]

/-- A lock that is acquired was taken: told by what the path of its file names. -/
theorem taken_of_acquire_path (htree : w.tree.IsTree) (hpath : Lock.path dir = .ok lock)
    (hlock : w.tree.Named A lock (place d)) (hleads : w.tree.Resolves B (place d) q)
    (h : (acquire dir timeout).outcome w = (.ok ticket, w')) : Taken A lock d q ticket w' := by
  have hextends := (Workspace.acquire_extends w dir timeout w (.refl htree)).of_outcome h
  obtain ⟨front, -, -, -, -, -, -, hacquire⟩ := exists_acquire_eq hpath timeout
  rw [hacquire] at h
  obtain ⟨⟨⟩, w₁, hcreate, h⟩ := exists_of_outcome_bind_ok h
  rw [outcome_failingAs, Prod.mk.injEq] at hcreate
  have hprepares := Workspace.createDirectories_yields w front
  rw [Yields, hcreate.2] at hprepares
  have hsame := hprepares.adds.sameLinks
  obtain ⟨-, -, hlocks, hreaches⟩ := (take_yields (hsame.named hlock) (hsame.resolves hleads)).of_outcome h
  rw [take, outcome_ofOutcome] at h
  rcases hensure : w₁.tree.ensureFile lock w₁.clock with x | ⟨v, t⟩
  · rw [hensure] at h
    cases h
  rw [hensure] at h
  dsimp only at h
  split at h
  · cases h
  next hfree =>
  cases h
  obtain ⟨hends, hlocate, c, m, hfile⟩ := exists_of_ensureFile hensure
  -- Neither directories nor the lock file make links, so the path leads where it led.
  have hlocksame : SameLinks w.tree t := hsame.trans hlocks.sameLinks
  have hnamed' := hlocksame.named hlock
  obtain rfl := hnamed'.eq_of_locate_true (hlocksame.resolves hleads) hlocate
  refine ⟨hends, hreaches ⟨_, rfl⟩, hlocate, ⟨c, m, hfile⟩, ?_, fun l hl hticket => ?_⟩
  · -- The lock file or a link to it stands beside the directory.
    have hstands : ∃ n, t.node? (place d) = some n := by
      cases hlocksame.resolves hleads with
      | self => exact ⟨_, hfile⟩
      | through hlink => exact ⟨_, hlink⟩
    obtain ⟨n, hn⟩ := hstands
    have hparent := hextends.isTree.parent _ _ hn
    rwa [place, List.dropLast_concat] at hparent
  · rcases List.mem_cons.1 hl with rfl | hl
    · exact absurd rfl hticket
    · refine ⟨fun hplace => hfree ?_, (List.mem_filter.1 hl).2⟩
      rw [isHeld, List.any_eq_true]
      exact ⟨l, hl, by simpa using hplace⟩

/-- **A lock that is acquired was taken.** -/
theorem taken_of_acquire (htree : w.tree.IsTree) (hnamed : w.tree.Named A dir d)
    (hleads : w.tree.Resolves B (place d) q) (h : (acquire dir timeout).outcome w = (.ok ticket, w')) :
    ∃ lock, Lock.path dir = .ok lock ∧ Taken A lock d q ticket w' := by
  rcases hpath : Lock.path dir with x | lock
  · rw [acquire_of_path hpath] at h
    cases h
  · exact ⟨lock, rfl, taken_of_acquire_path htree hpath (named hnamed hpath) hleads h⟩

/-- Where the way to the lock file is there, it is all made. -/
theorem outcome_acquire (hpath : Lock.path dir = .ok lock) (hreaches : w.tree.Reaches A lock (place d))
    (hparent : w.tree.node? d.dropLast = some .directory) (timeout : Nat) :
    (acquire dir timeout).outcome w = (take lock timeout).outcome w := by
  obtain ⟨front, -, -, -, -, -, hfront, hacquire⟩ := exists_acquire_eq hpath timeout
  have hcreate : (Workspace.createDirectories front).outcome w = (.ok (), w) := by
    by_cases hempty : front = ""
    · subst hempty
      rw [Workspace.createDirectories, DiskPath.lineage, DiskPath.lineageUpTo, Workspace.createLineage, if_pos rfl]
      rfl
    obtain ⟨xs, p, name, hp, -, hopens⟩ := hreaches
    obtain ⟨n, hn, hway⟩ := hopens.way
    obtain ⟨front', hfront', hsteps, habs⟩ := DiskPath.exists_parent hopens.steps_eq
    obtain rfl := Option.some.inj (hfront.symm.trans hfront')
    obtain ⟨rest, hrest⟩ := exists_of_parent? hfront
    have hend : p = d.dropLast := by
      have hdrop := congrArg List.dropLast hp
      rw [place, List.dropLast_concat, List.dropLast_concat] at hdrop
      exact hdrop.symm
    have hstart : w.tree.start lock = w.tree.start front := by rw [start, start, habs]
    rw [hstart, ← hsteps, hend] at hway
    exact Workspace.createDirectories_of_leads ((hrest ▸ hopens.clean).of_append hempty)
      (hway.mono fun _ hv => hv.2) hn hparent
  rw [hacquire, outcome_bind, outcome_failingAs, hcreate]
  rfl

/-- **A lock is acquired** if its file is reached and nobody holds it. -/
theorem acquire_again (hpath : Lock.path dir = .ok lock) (hends : Text.endsWith "/" lock = false)
    (hreaches : w.tree.Reaches A lock (place d)) (hparent : w.tree.node? d.dropLast = some .directory)
    (hlocate : w.tree.locate true lock = .ok (q, false)) (hfile : ∀ n, w.tree.node? q = some n → n.isFile = true)
    (hfree : ∀ l ∈ w.held, l.place ≠ q) (timeout : Nat) :
    ∃ ticket w', (acquire dir timeout).outcome w = (.ok ticket, w') ∧
      Grows w.tree w'.tree ∧ w'.records = w.records := by
  obtain ⟨t, hensure, hgrows⟩ := exists_ensureFile hends hlocate hfile
  have hheld : isHeld (w.withTree t) q = false := by
    rw [isHeld, List.any_eq_false]
    exact fun l hl => by simpa using hfree l (List.mem_filter.1 hl).1
  rw [outcome_acquire hpath hreaches hparent, take, outcome_ofOutcome, hensure]
  dsimp only
  rw [hheld]
  exact ⟨_, _, rfl, hgrows, rfl⟩

/-- **A lock that is held is waited for in vain**, by whoever reaches its file. -/
theorem acquire_in_vain (hpath : Lock.path dir = .ok lock) (h : Taken A lock d q ticket w)
    (hheld : ⟨ticket, q⟩ ∈ w.held) (timeout : Nat) :
    ∃ w', (acquire dir timeout).outcome w = (.error (.timeout lock timeout), w') := by
  obtain ⟨c, m, hnode⟩ := h.file
  obtain ⟨t, hensure, hgrows⟩ := exists_ensureFile h.ends h.locate h.isFile
  have hstill : isHeld (w.withTree t) q = true := by
    rw [isHeld, List.any_eq_true]
    refine ⟨_, List.mem_filter.2 ⟨hheld, ?_⟩, decide_eq_true rfl⟩
    rw [hgrows.node_of_some hnode]
    rfl
  rw [outcome_acquire hpath h.reaches h.parent, take, outcome_ofOutcome, hensure]
  dsimp only
  rw [hstill]
  exact ⟨_, rfl⟩

/-- **A lock that was taken is taken again**, once it was given back: what its way passes was left as it was, and where
there was something at its place or where that led, this was left too, or made a file, or removed. -/
theorem Taken.acquire_again (h : Taken A lock d q ticket w) (hpath : Lock.path dir = .ok lock)
    (hnamed : w.tree.Named A dir d) (hleads : w.tree.Resolves A (place d) q) (hretains : Retains A w.tree w'.tree)
    (hparent : w'.tree.node? d.dropLast = some .directory)
    (hnode : ∀ v, v = q ∨ v = place d → w'.tree.node? v = w.tree.node? v ∨
      ∀ n, w'.tree.node? v = some n → n.isFile = true)
    (hheld : ∀ l ∈ w'.held, l ∈ w.held ∧ l.ticket ≠ ticket) (timeout : Nat) :
    ∃ ticket' w'', (acquire dir timeout).outcome w' = (.ok ticket', w'') ∧ Grows w'.tree w''.tree ∧
      w''.records = w'.records := by
  obtain ⟨hlock, hends⟩ := named_and_ends hnamed hpath
  have hreaches := hretains.reaches h.reaches
  have hagain : ∀ q', w'.tree.locate true lock = .ok (q', false) →
      (∀ n, w'.tree.node? q' = some n → n.isFile = true) → (∀ l ∈ w.held, l.ticket ≠ ticket → l.place ≠ q') → _ :=
    fun q' hlocate hfile' hfree => Lock.acquire_again hpath h.ends hreaches hparent hlocate hfile'
      (fun l hl => hfree l (hheld l hl).1 (hheld l hl).2) timeout
  by_cases hlink : ∃ target, w'.tree.node? (place d) = some (.link target)
  · -- The link at its place was there before, and leads where it led.
    obtain ⟨target, hlink⟩ := hlink
    have hsame : w'.tree.node? (place d) = w.tree.node? (place d) :=
      (hnode _ (.inr rfl)).resolve_right fun hfile' => nomatch hfile' _ hlink
    have hretains' : Retains (fun v => A v ∨ v = place d) w.tree w'.tree := by
      refine ⟨hretains.base, fun v hv hpass => ?_⟩
      rcases hv with hv | rfl
      · exact hretains.node v hv hpass
      · exact hsame
    have hfile' : ∀ n, w'.tree.node? q = some n → n.isFile = true := by
      rcases hnode q (.inl rfl) with hsame | hfile'
      · exact hsame ▸ h.isFile
      · exact hfile'
    obtain ⟨n, hway⟩ := hlock.exists_leads hleads
    refine hagain q (hretains'.locate (fun target hlink => nomatch hfile' _ hlink) hway h.locate) hfile' ?_
    exact fun l hl hticket => (h.alone l hl hticket).1
  · -- No link stands there, so the lock file itself is taken, or a file in its place.
    rw [not_exists] at hlink
    refine hagain (place d) (hreaches.locate hends hlink true) ?_ fun l hl hticket => ?_
    · rcases hnode _ (.inr rfl) with hsame | hfile'
      · have hself : w.tree.Resolves A (place d) (place d) := .self fun target => hsame ▸ hlink target
        rw [hsame, ← hleads.unique hself]
        exact h.isFile
      · exact hfile'
    · rintro hplace
      obtain ⟨hne, hheldFile⟩ := h.alone l hl hticket
      cases hleads with
      | self => exact hne hplace
      | through hbefore =>
        rw [hplace, hbefore] at hheldFile
        cases hheldFile

end Lock

end LayeredBundles
