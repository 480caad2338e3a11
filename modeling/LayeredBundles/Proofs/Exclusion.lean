import LayeredBundles.Proofs.LockFiles

/-! # At most one holder

Locks are taken and given back, by anybody and in any order. Taking a lock makes no links: so whether two directories
have one lock is decided once and for all by the tree there was at the start.

* **`Session`** — a workspace with those who have locks, and the moves they make;
* **`Session.Sound`** — those who have locks are those the workspace knows of, each alone with its file;
  **`Session.Sound.run`** says that no move ends this;
* **`Session.at_most_one_holder`** — what follows for holders and directories. -/

namespace LayeredBundles

open DiskPath FileTree Fallible

/-! ## (1) Sessions -/

/-- Somebody who has a lock: the ticket, and the directory. -/
structure Holder where
  /-- The ticket. -/
  ticket : Nat
  /-- The directory. -/
  dir : String
  deriving DecidableEq

/-- `w.Holds l p`: the lock of `l` was taken, its file is at `p`, and nobody else has it. -/
def Workspace.Holds [Charset] (w : Workspace) (l : Holder) (p : Place) : Prop :=
  ⟨l.ticket, p⟩ ∈ w.held ∧ ∃ lock d, Lock.path l.dir = .ok lock ∧ Lock.Taken (fun _ => True) lock d p l.ticket w

namespace Workspace.Holds

variable [Charset] {w w' : Workspace} {l : Holder} {p : Place}

/-- A lock that is held guards its directory. -/
theorem guards (h : w.Holds l p) : Lock.Guards w.tree l.dir p := by
  obtain ⟨-, lock, d, hpath, htaken⟩ := h
  exact ⟨lock, hpath, (arrives_of_locate htaken.locate).exists_leads⟩

/-- A lock stays held while the tree grows, its ticket is kept, and no other ticket comes to its file. -/
theorem later (h : w.Holds l p) (hgrows : Grows w.tree w'.tree) (hkept : ⟨l.ticket, p⟩ ∈ w'.held)
    (hheld : ∀ l' ∈ w'.held, l'.ticket ≠ l.ticket → l' ∈ w.held ∨
      l'.place ≠ p ∧ (w'.tree.node? l'.place).any Node.isFile = true) : w'.Holds l p := by
  obtain ⟨-, lock, d, hpath, htaken⟩ := h
  exact ⟨hkept, lock, d, hpath, htaken.later hgrows hheld⟩

variable [LawfulCharset]

/-- **A lock that nobody has any more** is taken by whoever asks for it. -/
theorem acquire_again (h : w.Holds l p) (htree : w'.tree = w.tree) (hfree : ∀ l' ∈ w'.held, l'.place ≠ p)
    (timeout : Nat) : ∃ ticket w'', (Lock.acquire l.dir timeout).outcome w' = (.ok ticket, w'') := by
  obtain ⟨-, lock, d, hpath, htaken⟩ := h
  have hisFile := htaken.isFile
  have hreaches := htaken.reaches
  have hparent := htaken.parent
  have hlocate := htaken.locate
  rw [← htree] at hreaches hparent hlocate hisFile
  obtain ⟨ticket, w'', hout, -⟩ := Lock.acquire_again hpath htaken.ends hreaches hparent hlocate hisFile hfree timeout
  exact ⟨ticket, w'', hout⟩

/-- **Nobody else gets it** meanwhile. -/
theorem acquire_in_vain (h : w.Holds l p) (timeout : Nat) : ∃ lock w', Lock.path l.dir = .ok lock ∧
    (Lock.acquire l.dir timeout).outcome w = (.error (.timeout lock timeout), w') := by
  obtain ⟨hheld, lock, d, hpath, htaken⟩ := h
  obtain ⟨w', hout⟩ := Lock.acquire_in_vain hpath htaken hheld timeout
  exact ⟨lock, w', hpath, hout⟩

end Workspace.Holds

/-- A **session**: a workspace, and those who have locks. -/
structure Session where
  /-- The workspace. -/
  workspace : Workspace
  /-- Those who have locks. -/
  live : List Holder

namespace Session

/-- What somebody does. -/
inductive Move where
  /-- To ask for the lock of a directory. -/
  | acquire (dir : String) (timeout : Nat)
  /-- To give the lock of a ticket back. -/
  | release (ticket : Nat)

section Runs

variable [Charset]

/-- One move. -/
def step (s : Session) : Move → Session
  | .acquire dir timeout =>
    match (Lock.acquire dir timeout).outcome s.workspace with
    | (.ok ticket, w) => ⟨w, ⟨ticket, dir⟩ :: s.live⟩
    | (.error _, w) => ⟨w, s.live⟩
  | .release ticket => ⟨Lock.release ticket s.workspace, s.live.filter (·.ticket ≠ ticket)⟩

/-- One move after another. -/
def run (s : Session) (moves : List Move) : Session := moves.foldl step s

/-- All directories asked for are straight. -/
def Straight (moves : List Move) : Prop := ∀ dir timeout, .acquire dir timeout ∈ moves → IsStraight dir

/-- `s.Sound t`: those who have locks are those that the workspace knows of, and the links are those of `t`. -/
structure Sound (t : FileTree) (s : Session) : Prop where
  /-- There is a tree. -/
  isTree : s.workspace.tree.IsTree
  /-- The links are the same. -/
  links : SameLinks t s.workspace.tree
  /-- The tickets. -/
  tickets : s.workspace.held.map (·.ticket) = s.live.map (·.ticket)
  /-- Every ticket is given once. -/
  nodup : (s.workspace.held.map (·.ticket)).Nodup
  /-- The next one is another one. -/
  fresh : ∀ l ∈ s.workspace.held, l.ticket < s.workspace.ticket
  /-- What is locked. -/
  holds : ∀ l ∈ s.live, IsStraight l.dir ∧ ∃ p, s.workspace.Holds l p

variable {t : FileTree} {s : Session} {w : Workspace} {l : Holder} {dir : String} {p : Place} {m : Move}
  {moves : List Move} {v : Place}

/-- After a lock was asked for, the workspace is the one that taking it has left. -/
theorem workspace_step_acquire (s : Session) (dir : String) (timeout : Nat) :
    (s.step (.acquire dir timeout)).workspace = ((Lock.acquire dir timeout).outcome s.workspace).2 := by
  rw [step]
  split <;> next hout => rw [hout]

namespace Sound

/-- Before any lock is taken. -/
theorem start (htree : w.tree.IsTree) (hheld : w.held = []) : Sound w.tree ⟨w, []⟩ where
  isTree := htree
  links := ⟨rfl, fun _ _ => Iff.rfl⟩
  tickets := by rw [hheld]; rfl
  nodup := by simp [hheld]
  fresh l hl := by simp [hheld] at hl
  holds l hl := by simp at hl

/-- Whoever holds a lock holds the one that guarded the directory in the beginning. -/
theorem guards (h : s.Sound t) (hp : s.workspace.Holds l p) : Lock.Guards t l.dir p :=
  hp.guards.sameLinks h.links.symm

/-- Every lock that is held somebody has. -/
theorem exists_holds (h : s.Sound t) {held : HeldLock} (hheld : held ∈ s.workspace.held) :
    ∃ l ∈ s.live, s.workspace.Holds l held.place := by
  obtain ⟨l, hl, hticket⟩ := List.mem_map.1 (h.tickets ▸ List.mem_map_of_mem hheld)
  obtain ⟨-, p, hp⟩ := h.holds l hl
  have hsame : ⟨l.ticket, p⟩ = held := List.inj_on_of_nodup_map h.nodup hp.1 hheld hticket
  exact ⟨l, hl, hsame ▸ hp⟩

/-- All locks of a session stand on files. -/
theorem locksStand (h : s.Sound t) : s.workspace.LocksStand := by
  intro held hheld
  obtain ⟨l, -, -, lock, d, -, htaken⟩ := h.exists_holds hheld
  exact htaken.file

/-- A lock is held at a place exactly if somebody has a lock that guards it. -/
theorem isHeld_iff (h : s.Sound t) : Lock.isHeld s.workspace p = true ↔ ∃ l ∈ s.live, Lock.Guards t l.dir p := by
  rw [Lock.isHeld, List.any_eq_true]
  constructor
  · rintro ⟨held, hheld, hp⟩
    obtain ⟨l, hl, hholds⟩ := h.exists_holds hheld
    exact ⟨l, hl, h.guards (of_decide_eq_true hp ▸ hholds)⟩
  · rintro ⟨l, hl, hguards⟩
    obtain ⟨-, q, hq⟩ := h.holds l hl
    exact ⟨_, hq.1, decide_eq_true ((h.guards hq).unique hguards)⟩

/-- The lock of a directory, whose file is at `p`, is held exactly if somebody shares it. -/
theorem isHeld_iff_shares (h : s.Sound t) (hp : Lock.Guards t dir p) :
    Lock.isHeld s.workspace p = true ↔ ∃ l ∈ s.live, Lock.Shares t dir l.dir := by
  rw [h.isHeld_iff]
  refine exists_congr fun l => and_congr_right fun _ => ⟨fun hl => ⟨p, hp, hl⟩, fun ⟨q, hq, hl⟩ => ?_⟩
  exact hq.unique hp ▸ hl

/-- When no lock is got, those that are held stay so. -/
theorem of_extends (h : s.Sound t) (hextends : s.workspace.Extends w) (hheld : w.held = s.workspace.held)
    (hticket : w.ticket = s.workspace.ticket) : Sound t ⟨w, s.live⟩ where
  isTree := hextends.isTree
  links := h.links.trans hextends.grows.sameLinks
  tickets := hheld ▸ h.tickets
  nodup := hheld ▸ h.nodup
  fresh := by
    rw [hheld, hticket]
    exact h.fresh
  holds l hl := by
    refine (h.holds l hl).imp_right fun ⟨p, hp⟩ => ⟨p, hp.later hextends.grows (hheld ▸ hp.1) fun l' hl' _ => .inl ?_⟩
    exact hheld ▸ hl'

/-- When a lock is got, it is one more, on a file that nobody else has locked. -/
theorem of_took (h : s.Sound t) (hextends : s.workspace.Extends w) (hdir : IsStraight dir)
    (hnew : w.Holds ⟨s.workspace.ticket, dir⟩ p) (hfree : Lock.isHeld s.workspace p = false)
    (hheld : w.held = ⟨s.workspace.ticket, p⟩ :: s.workspace.held) (hticket : w.ticket = s.workspace.ticket + 1) :
    Sound t ⟨w, ⟨s.workspace.ticket, dir⟩ :: s.live⟩ where
  isTree := hextends.isTree
  links := h.links.trans hextends.grows.sameLinks
  tickets := by rw [hheld, List.map_cons, List.map_cons, h.tickets]
  nodup := by
    rw [hheld, List.map_cons, List.nodup_cons]
    refine ⟨fun hmem => ?_, h.nodup⟩
    obtain ⟨l, hl, hsame⟩ := List.mem_map.1 hmem
    exact (h.fresh l hl).ne hsame
  fresh := by
    rw [hheld, hticket]
    exact List.forall_mem_cons.2 ⟨Nat.lt_succ_self _, fun l hl => (h.fresh l hl).trans (Nat.lt_succ_self _)⟩
  holds := by
    refine List.forall_mem_cons.2 ⟨⟨hdir, p, hnew⟩, fun l hl => (h.holds l hl).imp_right fun ⟨q, hq⟩ => ⟨q, ?_⟩⟩
    refine hq.later hextends.grows (hheld ▸ List.mem_cons_of_mem _ hq.1) fun l' hl' _ => ?_
    rcases List.mem_cons.1 (hheld ▸ hl') with rfl | hl'
    · -- The file of the new lock is not the one that `l` has locked.
      refine .inr ⟨?_, ?_⟩
      · rintro rfl
        rw [Lock.isHeld, List.any_eq_false] at hfree
        exact hfree _ hq.1 (decide_eq_true rfl)
      · obtain ⟨-, lock, d, -, htaken⟩ := hnew
        obtain ⟨c, m, hfile⟩ := htaken.file
        rw [hfile]
        rfl
    · exact .inl hl'

/-- **Giving a lock back.** -/
theorem release (h : s.Sound t) (ticket : Nat) : (s.step (.release ticket)).Sound t where
  isTree := h.isTree
  links := h.links
  tickets := by
    have hfilter {α : Type} (f : α → Nat) (xs : List α) :
        (xs.filter (f · ≠ ticket)).map f = (xs.map f).filter (· ≠ ticket) := by
      rw [List.filter_map]
      rfl
    exact (hfilter HeldLock.ticket _).trans (h.tickets ▸ (hfilter Holder.ticket _).symm)
  nodup := h.nodup.sublist (List.filter_sublist.map _)
  fresh l hl := h.fresh l (List.mem_filter.1 hl).1
  holds l hl := by
    obtain ⟨hl, hother⟩ := List.mem_filter.1 hl
    refine (h.holds l hl).imp_right fun ⟨p, hp⟩ => ⟨p, hp.later (.refl _) (List.mem_filter.2 ⟨hp.1, hother⟩) ?_⟩
    exact fun l' hl' _ => .inl (List.mem_filter.1 hl').1

variable [LawfulCharset]

/-- **Asking for a lock.** -/
theorem acquire (h : s.Sound t) (hdir : IsStraight dir) (timeout : Nat) : (s.step (.acquire dir timeout)).Sound t := by
  by_cases hroot : steps dir = []
  · rw [step, Lock.acquire_of_path (Lock.path_of_root hroot)]
    exact h
  obtain ⟨lock, hpath⟩ := Lock.exists_path hdir hroot
  have hyields : (Lock.acquire dir timeout).Yields s.workspace _ := Lock.acquire_took h.isTree h.locksStand hpath
  rcases hout : (Lock.acquire dir timeout).outcome s.workspace with ⟨r, w⟩
  rw [Yields, hout] at hyields
  obtain ⟨hleaves, htook⟩ := hyields
  rw [step, hout]
  cases htook with
  | refused cause hheld hticket => exact h.of_extends hleaves.toExtends hheld hticket
  | waited p _ _ hheld hticket => exact h.of_extends hleaves.toExtends hheld hticket
  | took p hguards hfree _ hheld hticket =>
    obtain ⟨lock', hpath', hto⟩ := hguards
    obtain ⟨d, hnamed, hleads⟩ := Lock.named_of_leadsTo hpath' hto
    have htaken := Lock.taken_of_acquire_path h.isTree hpath' hnamed hleads hout
    exact h.of_took hleaves.toExtends hdir ⟨hheld ▸ List.mem_cons_self, lock', d, hpath', htaken⟩ hfree hheld hticket

/-- **No move ends it.** -/
theorem step (h : s.Sound t) (hdir : ∀ dir timeout, m = .acquire dir timeout → IsStraight dir) :
    (s.step m).Sound t := by
  cases m with
  | acquire dir timeout => exact h.acquire (hdir dir timeout rfl) timeout
  | release ticket => exact h.release ticket

/-- A whole run does not. -/
theorem run (h : s.Sound t) (hstraight : Straight moves) : (s.run moves).Sound t := by
  induction moves generalizing s with
  | nil => exact h
  | cons m moves ih =>
    exact ih (h.step fun dir timeout hm => hstraight dir timeout (hm ▸ List.mem_cons_self)) fun dir timeout hm =>
      hstraight dir timeout (List.mem_cons_of_mem _ hm)

/-- One move makes directories only where what is asked for stands below leads. -/
theorem made_of_step (h : s.Sound t) (hdir : ∀ dir timeout, m = .acquire dir timeout → IsStraight dir) :
    Grows s.workspace.tree (s.step m).workspace.tree ∧
      ∀ v, (s.step m).workspace.tree.node? v = some .directory → s.workspace.tree.node? v = some .directory ∨
        ∃ dir timeout, m = .acquire dir timeout ∧ t.LeadsAbove dir v := by
  cases m with
  | acquire dir timeout =>
    have hleaves : (Lock.acquire dir timeout).Yields s.workspace fun _ w => Lock.Leaves s.workspace dir w :=
      Lock.acquire_leaves h.isTree h.locksStand (hdir dir timeout rfl)
    rw [workspace_step_acquire]
    refine ⟨hleaves.grows, fun v hv => (hleaves.made v hv).imp_right fun habove => ?_⟩
    exact ⟨dir, timeout, rfl, h.links.symm.leadsAbove habove⟩
  | release ticket => exact ⟨.refl _, fun _ => .inl⟩

/-- So does a whole run. -/
theorem made_of_run (h : s.Sound t) (hstraight : Straight moves) :
    Grows s.workspace.tree (s.run moves).workspace.tree ∧
      ∀ v, (s.run moves).workspace.tree.node? v = some .directory → s.workspace.tree.node? v = some .directory ∨
        ∃ dir timeout, .acquire dir timeout ∈ moves ∧ t.LeadsAbove dir v := by
  induction moves generalizing s with
  | nil => exact ⟨.refl _, fun _ => .inl⟩
  | cons m moves ih =>
    have hdir : ∀ dir timeout, m = .acquire dir timeout → IsStraight dir := fun dir timeout hm =>
      hstraight dir timeout (hm ▸ List.mem_cons_self)
    obtain ⟨hgrows, hmade⟩ := h.made_of_step hdir
    obtain ⟨hgrows', hmade'⟩ := ih (h.step hdir) fun dir timeout hm => hstraight dir timeout (List.mem_cons_of_mem _ hm)
    refine ⟨hgrows.trans hgrows', fun v hv => ?_⟩
    rcases hmade' v hv with hv | ⟨dir, timeout, hmem, habove⟩
    · refine (hmade v hv).imp_right fun ⟨dir, timeout, hm, habove⟩ => ?_
      exact ⟨dir, timeout, hm ▸ List.mem_cons_self, habove⟩
    · exact .inr ⟨dir, timeout, List.mem_cons_of_mem _ hmem, habove⟩

end Sound

/-! ## (2) Holders and directories -/

/-- `s.Exclusive t`: what holders may rely on, where `t` tells the links. -/
structure Exclusive (t : FileTree) (s : Session) : Prop where
  /-- The workspace knows of those who have locks, and of nobody else. -/
  tickets : s.workspace.held.map (·.ticket) = s.live.map (·.ticket)
  /-- No two of them have the same directory, or the same lock file. -/
  apart : s.live.Pairwise fun l l' => same l.dir l'.dir = false ∧ ¬ Lock.Shares t l.dir l'.dir
  /-- For what has no parent or no name there is no lock, and nothing is changed. -/
  nameless : ∀ dir timeout, parent? dir = none ∨ fileName? dir = none →
    (Lock.acquire dir timeout).outcome s.workspace = (.error (.noParent dir), s.workspace)
  /-- Unless the files do not allow it, a lock is got exactly if nobody has one that shares its file; else the time is
  up. -/
  settled : ∀ dir timeout, IsStraight dir → fileName? dir ≠ none →
    ∃ lock, Lock.path dir = .ok lock ∧ (Lock.acquire dir timeout).Yields s.workspace fun r _ =>
      (∃ cause, r = .error (.io cause)) ∨
      ((∃ l ∈ s.live, Lock.Shares t dir l.dir) ∧ r = .error (.timeout lock timeout)) ∨
      ((∀ l ∈ s.live, ¬ Lock.Shares t dir l.dir) ∧ ∃ ticket, r = .ok ticket)
  /-- Whoever asks for the directory of a lock that somebody has waits in vain. -/
  barred : ∀ l ∈ s.live, ∀ timeout, ∃ lock w, Lock.path l.dir = .ok lock ∧
    (Lock.acquire l.dir timeout).outcome s.workspace = (.error (.timeout lock timeout), w)
  /-- The directory itself is not made, whatever comes of it. -/
  spared : ∀ dir timeout v, IsStraight dir → t.LeadsTo dir v →
    (Lock.acquire dir timeout).Yields s.workspace fun _ w =>
      w.tree.node? v = some .directory → s.workspace.tree.node? v = some .directory
  /-- A lock that is given back can be got again, and all others stay. -/
  released : ∀ l ∈ s.live, (s.step (.release l.ticket)).workspace.tree = s.workspace.tree ∧
    (∀ l', l' ∈ (s.step (.release l.ticket)).live ↔ l' ∈ s.live ∧ l' ≠ l) ∧
    ∀ timeout, ∃ ticket w, (Lock.acquire l.dir timeout).outcome (s.step (.release l.ticket)).workspace = (.ok ticket, w)

variable [LawfulCharset]

namespace Sound

/-- Those who have locks do not share any. -/
theorem apart (h : s.Sound t) :
    s.live.Pairwise fun l l' => same l.dir l'.dir = false ∧ ¬ Lock.Shares t l.dir l'.dir := by
  have htickets : s.live.Pairwise fun l l' => l.ticket ≠ l'.ticket := List.pairwise_map.1 (h.tickets ▸ h.nodup)
  refine htickets.imp_of_mem fun {l l'} hl hl' hne => ?_
  obtain ⟨hdir, p, hp⟩ := h.holds l hl
  obtain ⟨hdir', p', hp'⟩ := h.holds l' hl'
  have hshares : ¬ Lock.Shares t l.dir l'.dir := by
    rintro ⟨q, hq, hq'⟩
    obtain ⟨-, lock, d, -, htaken⟩ := id hp
    have hplace : p' = p := ((h.guards hp').unique hq').trans ((h.guards hp).unique hq).symm
    exact (htaken.alone _ hp'.1 hne.symm).1 hplace
  refine ⟨Bool.eq_false_iff.2 fun hsame => hshares ?_, hshares⟩
  exact ⟨p, h.guards hp, (h.guards hp).of_alike hdir hdir' (Lock.alike_of_same hdir hdir' hsame)⟩

/-- **A lock that is asked for** is refused by the file system, or times out since a live lock guards the same
directory, or is given since none does. -/
theorem settled (h : s.Sound t) (timeout : Nat) {lock : String} (hlock : Lock.path dir = .ok lock) :
    (Lock.acquire dir timeout).Yields s.workspace fun r _ =>
      (∃ cause, r = .error (.io cause)) ∨
      ((∃ l ∈ s.live, Lock.Shares t dir l.dir) ∧ r = .error (.timeout lock timeout)) ∨
      ((∀ l ∈ s.live, ¬ Lock.Shares t dir l.dir) ∧ ∃ ticket, r = .ok ticket) := by
  refine (Lock.acquire_took h.isTree h.locksStand hlock).mono fun r w htook => ?_
  cases htook.2 with
  | refused cause => exact .inl ⟨cause, rfl⟩
  | waited p hguards htaken =>
    exact .inr (.inl ⟨(h.isHeld_iff_shares (hguards.sameLinks h.links.symm)).1 htaken, rfl⟩)
  | took p hguards hfree =>
    refine .inr (.inr ⟨fun l hl hshares => ?_, _, rfl⟩)
    rw [(h.isHeld_iff_shares (hguards.sameLinks h.links.symm)).2 ⟨l, hl, hshares⟩] at hfree
    cases hfree

/-- Whatever becomes of it, the directory that a straight path leads to stays one. -/
theorem spared (h : s.Sound t) (timeout : Nat) (hdir : IsStraight dir) (hto : t.LeadsTo dir v) :
    (Lock.acquire dir timeout).Yields s.workspace fun _ w =>
      w.tree.node? v = some .directory → s.workspace.tree.node? v = some .directory := by
  refine (Lock.acquire_leaves h.isTree h.locksStand hdir).mono fun _ w hleaves hv => ?_
  rcases hnode : s.workspace.tree.node? v with _ | n
  · -- What the directory stands below is not where it is itself.
    rcases hleaves.made v hv with hold | habove
    · exact hnode.symm.trans hold
    · exact absurd (h.links.leadsTo hto) (habove.ne h.isTree.toGrounded hdir hnode)
  · exact (hleaves.grows.node_of_some hnode).symm.trans hv

/-- A lock that is given back leaves the tree alone and no other lock with it, and may be taken again at once. -/
theorem released (h : s.Sound t) (hl : l ∈ s.live) : (s.step (.release l.ticket)).workspace.tree = s.workspace.tree ∧
    (∀ l', l' ∈ (s.step (.release l.ticket)).live ↔ l' ∈ s.live ∧ l' ≠ l) ∧
    ∀ timeout, ∃ ticket w,
      (Lock.acquire l.dir timeout).outcome (s.step (.release l.ticket)).workspace = (.ok ticket, w) := by
  have hnodup : (s.live.map (·.ticket)).Nodup := h.tickets ▸ h.nodup
  refine ⟨rfl, fun l' => ?_, fun timeout => ?_⟩
  · rw [Session.step, List.mem_filter, decide_eq_true_eq]
    refine and_congr_right fun hl' => not_congr ⟨fun hticket => ?_, fun heq => heq ▸ rfl⟩
    exact List.inj_on_of_nodup_map hnodup hl' hl hticket
  · obtain ⟨-, p, hp⟩ := h.holds l hl
    obtain ⟨-, lock, d, -, htaken⟩ := id hp
    have htree : (s.step (.release l.ticket)).workspace.tree = s.workspace.tree := rfl
    refine hp.acquire_again htree (fun l' hl' => ?_) timeout
    obtain ⟨hl', hother⟩ := List.mem_filter.1 hl'
    exact (htaken.alone l' hl' (of_decide_eq_true hother)).1

/-- **What holders may rely on.** -/
theorem exclusive (h : s.Sound t) : s.Exclusive t where
  tickets := h.tickets
  apart := h.apart
  nameless dir timeout hnone := Lock.acquire_of_path (Lock.path_of_none hnone) _ timeout
  settled dir timeout hdir hname := by
    obtain ⟨lock, hlock⟩ := Lock.exists_path hdir fun hroot => hname (fileName?_of_root hroot)
    exact ⟨lock, hlock, h.settled timeout hlock⟩
  barred l hl timeout := by
    obtain ⟨-, p, hp⟩ := h.holds l hl
    exact hp.acquire_in_vain timeout
  spared dir timeout v hdir := h.spared timeout hdir
  released l hl := h.released hl

end Sound

/-- **At most one holder.** Whatever locks of straight directories are asked for and given back, in any spelling and any
order: those who have locks have them for different directories with different lock files; a lock is got exactly if
nobody has one that shares its file; and one that is given back can be got again. A directory that is new stands where
one that was asked for stands below, and is not that one itself. Directories have the same lock file exactly if they
stand in the same directory and their names are shown as the same text; where names are text, exactly if they are the
same. -/
theorem at_most_one_holder (htree : w.tree.IsTree) (hheld : w.held = []) (hstraight : Straight moves) :
    (run ⟨w, []⟩ moves).Exclusive w.tree ∧
    (∀ v, (run ⟨w, []⟩ moves).workspace.tree.node? v = some .directory → w.tree.node? v = some .directory ∨
      ∃ dir timeout, .acquire dir timeout ∈ moves ∧ w.tree.LeadsAbove dir v ∧ ¬ w.tree.LeadsTo dir v) ∧
    Lock.Tells w.tree := by
  have hstart := Sound.start htree hheld
  obtain ⟨hgrows, hmade⟩ := hstart.made_of_run hstraight
  refine ⟨(hstart.run hstraight).exclusive, fun v hv => ?_, Lock.tells w.tree⟩
  rcases hnode : w.tree.node? v with _ | n
  · obtain ⟨dir, timeout, hmem, habove⟩ := (hmade v hv).resolve_left (by simp [hnode])
    exact .inr ⟨dir, timeout, hmem, habove, habove.ne htree.toGrounded (hstraight dir timeout hmem) hnode⟩
  · exact .inl ((hgrows.node_of_some hnode).symm.trans hv)

end Runs

/-- A tree with one directory, and a link to it. -/
def linked : Workspace := .ofTree ⟨[(["link"], .link "/real"), (["real"], .directory)], []⟩

/-- The tree of the example stands in directories, and each place is listed once. -/
theorem linked_isTree : linked.tree.IsTree :=
  ⟨grounded_of_nodes (by decide +kernel) (by decide +kernel), by unfold Table.Sorted; decide +kernel⟩

/-- Three directories, one of them below another, in several spellings. -/
def spelled : List Move :=
  [.acquire "/real/x" 0, .acquire "//real/./x/" 5, .acquire "/real/x/y" 0, .release 0, .acquire "/real//x" 7,
    .acquire "/" 0]

/-- Two directories whose names are no text, and differ in one byte. -/
def unreadable : List Move := [.acquire "/real/x\xfe" 0, .acquire "/real/x\xff" 0]

/-- Sessions over a directory with several spellings, in text, and over two directories that are told alike, in bytes.
Each of them leaves at most one holder of a lock. -/
theorem at_most_one_holder_spelled : linked.tree.IsTree ∧ linked.held = [] ∧ Straight spelled ∧ Straight unreadable ∧
    (run ⟨linked, []⟩ spelled).live = [⟨2, "/real//x"⟩, ⟨1, "/real/x/y"⟩] ∧
    (run ⟨linked, []⟩ spelled).Exclusive linked.tree ∧
    (@run .bytewise ⟨linked, []⟩ unreadable).live = [⟨0, "/real/x\xfe"⟩] ∧
    @Exclusive .bytewise linked.tree (@run .bytewise ⟨linked, []⟩ unreadable) := by
  have hstraight : Straight spelled := by
    rintro dir timeout hmem
    simp only [spelled, List.mem_cons, Move.acquire.injEq, List.not_mem_nil, or_false, reduceCtorEq, false_or] at hmem
    rcases hmem with ⟨rfl, -⟩ | ⟨rfl, -⟩ | ⟨rfl, -⟩ | ⟨rfl, -⟩ | ⟨rfl, -⟩ <;> exact ⟨by decide, by decide⟩
  have hstraight' : Straight unreadable := by
    rintro dir timeout hmem
    simp only [unreadable, List.mem_cons, Move.acquire.injEq, List.not_mem_nil, or_false] at hmem
    rcases hmem with ⟨rfl, -⟩ | ⟨rfl, -⟩ <;> exact ⟨by decide, by decide⟩
  have hexclusive : @Exclusive .bytewise linked.tree (@run .bytewise ⟨linked, []⟩ unreadable) := by
    let _ := Charset.bytewise
    have := Charset.lawful_bytewise
    exact (at_most_one_holder linked_isTree rfl hstraight').1
  exact ⟨linked_isTree, rfl, hstraight, hstraight', by decide +kernel,
    (at_most_one_holder linked_isTree rfl hstraight).1, by decide +kernel, hexclusive⟩

/-- **A directory can wait for another one**, when a link leads to what that stands in, or when their names are no text
and are shown as one. -/
theorem linked_waits : linked.tree.IsTree ∧ linked.held = [] ∧
    (IsStraight "/real/x" ∧ IsStraight "/link/x" ∧ same "/link/x" "/real/x" = false ∧
      (run ⟨linked, []⟩ [.acquire "/real/x" 0]).live = [⟨0, "/real/x"⟩] ∧
      ((Lock.acquire "/link/x" 0).outcome (run ⟨linked, []⟩ [.acquire "/real/x" 0]).workspace).1
        = .error (.timeout "/link/.x.lock" 0)) ∧
    IsStraight "/real/x\xfe" ∧ IsStraight "/real/x\xff" ∧ same "/real/x\xff" "/real/x\xfe" = false ∧
      @Lock.path .bytewise "/real/x\xfe" = .ok "/real/.x\xef\xbf\xbd.lock" ∧
      (@run .bytewise ⟨linked, []⟩ [.acquire "/real/x\xfe" 0]).live = [⟨0, "/real/x\xfe"⟩] ∧
      ((@Lock.acquire .bytewise "/real/x\xff" 0).outcome
          (@run .bytewise ⟨linked, []⟩ [.acquire "/real/x\xfe" 0]).workspace).1
        = .error (.timeout "/real/.x\xef\xbf\xbd.lock" 0) :=
  ⟨linked_isTree, rfl,
    ⟨⟨by decide, by decide⟩, ⟨by decide, by decide⟩, by decide, by decide +kernel, by decide +kernel⟩,
    ⟨by decide, by decide⟩, ⟨by decide, by decide⟩, by decide, by decide +kernel, by decide +kernel, by decide +kernel⟩

end Session

end LayeredBundles
