import LayeredBundles.Proofs.Convergence
import LayeredBundles.Proofs.Withheld

/-! # Checks that fail

A check may stop at its lock, at the record it asks for, at the directory it removes, or at the record it puts. What it
did before that stays done: nothing is removed before the record is known, and nothing is recorded before the directory
is gone. So a check that fails leaves all records as they were, and as long as these are not those of the tokens, no
later check finds nothing changed.

* **`Lock.acquire_outside`** — taking the lock leaves the directory alone;
* **`Workspace.Detached`** — the paths of the directory, its lock and its store do not pass the directory;
* **`Root.StopsAt`** — the step at which a check stops, and with which error;
* **`Root.checkBuild_setback`** — what a check leaves that fails, and that no later one takes it for done;
  **`Root.attached_diverges`** — where paths pass the directory, it is otherwise. -/

namespace LayeredBundles

open FileTree Fallible

/-! ## (1) Taking the lock -/

namespace Lock

variable {w : Workspace} {A B : Place → Prop} {dir lock : String} {d p q : Place} {timeout : Nat}

/-- The file of a lock is all that is made when it is taken. -/
theorem take_outside (hnamed : w.tree.Named A lock p) (hleads : w.tree.Resolves B p q) :
    (take lock timeout).Yields w fun _ w' => ∀ v, v ≠ q → w'.tree.node? v = w.tree.node? v := by
  rw [Yields, take, outcome_ofOutcome]
  unfold ensureFile
  rcases hlocate : w.tree.locateFile lock with x | ⟨u, _ | n⟩
  · exact fun _ _ => rfl
  · obtain ⟨rfl, hnone, -⟩ := locateFile_named hnamed hleads hlocate
    have hroot : u ≠ [] := by
      rintro rfl
      rw [node?_root] at hnone
      cases hnone
    have hsame : ∀ v, v ≠ u → (w.tree.bind u (.file .empty w.clock)).node? v = w.tree.node? v := fun v hv => by
      rw [node?_bind _ hroot, if_neg hv]
    dsimp only
    split <;> exact hsame
  · dsimp only
    split <;> exact fun _ _ => rfl

/-- **Taking the lock of a directory leaves the directory alone**, if neither its path nor the lock file leads there. -/
theorem acquire_outside (hnamed : w.tree.Named A dir d) (hA : ∀ v, A v → Outside d v)
    (hstart : Outside d (w.tree.start dir)) (hleads : w.tree.Resolves B (place d) q) (hq : Outside d q) :
    (acquire dir timeout).Yields w fun _ w' => ∀ v, d <+: v → w'.tree.node? v = w.tree.node? v := by
  rcases hpath : Lock.path dir with x | lock
  · rw [Yields, acquire_of_path hpath]
    exact fun _ _ => rfl
  have hlock := named hnamed hpath
  obtain ⟨front, xs, name, hsteps, hfrontsteps, habs, -, hacquire⟩ := exists_acquire_eq hpath timeout
  rw [hacquire]
  -- The way up to the last step is that of the directories that are created.
  have hstart' : w.tree.start front = w.tree.start dir := by rw [start, start, habs]
  obtain ⟨n, xs', u, name', hsteps', -, -, hway⟩ := hnamed.way
  obtain ⟨rfl, -⟩ := List.append_inj' (hsteps'.symm.trans hsteps) rfl
  rw [← hstart', ← hfrontsteps] at hway
  have hcreate := (Workspace.createDirectories_yields w front).and
    (Workspace.createDirectories_outside hA hnamed.ne_root
      (fun v hle hv => absurd (hv.trans hle) (hstart' ▸ hstart)) hway)
  refine Yields.bind (P := fun _ w₁ => w.Prepares w₁ ∧ ∀ v, d <+: v → w₁.tree.node? v = w.tree.node? v) hcreate ?_
    fun _ _ h => h.2
  rintro _ w₁ ⟨hprepares, hsame⟩
  have hlinks := hprepares.adds.sameLinks
  refine (take_outside (hlinks.named hlock) (hlinks.resolves hleads)).mono fun _ w₂ htake v hv => ?_
  exact (htake v fun heq => hq (heq ▸ hv)).trans (hsame v hv)

end Lock

/-! ## (2) What is detached -/

namespace Workspace

variable {w w' w₁ : Workspace} {dir root : String} {store : RecordStore} {d : Place} {place : Option Place}
  {record : BuildRecord}

/-- `w.Detached dir store d place`: the directory, its lock and its store are reached without passing the directory, and
a new store is written to a file of its own. -/
structure Detached (w : Workspace) (dir : String) (store : RecordStore) (d : Place) (place : Option Place) : Prop where
  /-- What stands below the directory is in a directory. -/
  rooted : w.tree.Rooted d
  /-- The paths begin outside the directory. -/
  start : ∀ path, path = dir ∨ store = .file path → Outside d (w.tree.start path)
  /-- What the path of the directory names. -/
  named : w.tree.Named (Outside d) dir d
  /-- The lock file leads somewhere. -/
  lock : ∃ q, w.tree.Resolves (Outside d) (Lock.place d) q
  /-- Where the store stands. -/
  store : store.StandsAt w (Outside d) place
  /-- That is outside the directory. -/
  outside : ∀ p, place = some p → Outside d p
  /-- No link stands under the name of a new store. -/
  plain : ∀ p target, place = some p → w.tree.node? (RecordStore.temporaryPlace p w.process) ≠ some (.link target)
  /-- Nor does the store lead there. -/
  beside : ∀ p, place = some p → ¬ w.tree.Resolves (fun _ => True) p (RecordStore.temporaryPlace p w.process)

/-- Where links are the same outside the directory, and none are new, all is as detached as it was. -/
theorem Detached.steady (h : w.Detached dir store d place) (hsteady : Steady d (fun _ => False) w.tree w'.tree)
    (hprocess : w'.process = w.process) (hrooted : w'.tree.Rooted d) : w'.Detached dir store d place := by
  have hlinks : ∀ v target, Outside d v →
      (w'.tree.node? v = some (.link target) ↔ w.tree.node? v = some (.link target)) := fun v target hv =>
    ⟨hsteady.fewer v target id, hsteady.outside v target hv id⟩
  have hfiles : ∀ v target, RecordStore.Files place w.process v →
      (w'.tree.node? v = some (.link target) ↔ w.tree.node? v = some (.link target)) := by
    rintro v target ⟨p, hp, rfl | rfl⟩
    · exact hlinks v target (h.outside v hp)
    · refine iff_of_false (fun hlink => ?_) (h.plain p target hp)
      exact h.plain p target hp (hsteady.fewer _ target id hlink)
  obtain ⟨q, hlock⟩ := h.lock
  obtain ⟨hstands, hleads⟩ := h.store.congr hsteady.base hprocess fun v target hv =>
    hv.elim (hlinks v target) (hfiles v target)
  have hstart : ∀ path, w'.tree.start path = w.tree.start path := fun path => by
    rw [FileTree.start, FileTree.start, hsteady.base]
  refine ⟨hrooted, fun path hpath => hstart path ▸ h.start path hpath, ?_, ⟨q, ?_⟩, hstands, h.outside, ?_, ?_⟩
  · exact h.named.congr hsteady.base hlinks fun target hlink => h.named.ends target (hsteady.fewer d target id hlink)
  · exact hlock.congr (fun target => hlinks _ target (Lock.not_prefix_place h.named.ne_root)) hlinks
  · intro p target hp hlink
    rw [hprocess] at hlink
    exact h.plain p target hp (hsteady.fewer _ target id hlink)
  · intro p hp hq
    rw [hprocess] at hq
    exact h.beside p hp (hleads p _ ⟨p, hp, .inl rfl⟩ hq)

/-- Where the store leads is outside the directory. -/
theorem Detached.outside_store (h : w.Detached dir store d place) {p q : Place} (hp : place = some p)
    (hq : w.tree.Resolves (fun _ => True) p q) : Outside d q := by
  cases h.store with
  | memory => cases hp
  | file _ hleads _ =>
    cases hp
    obtain rfl := hleads.unique hq
    cases hleads with
    | self => exact h.outside _ rfl
    | through _ _ hout => exact hout

/-- Where the lock file leads is outside the directory. -/
theorem Detached.outside_lock (h : w.Detached dir store d place) {q : Place}
    (hq : w.tree.Resolves (fun _ => True) (Lock.place d) q) : Outside d q := by
  obtain ⟨q', hlock⟩ := h.lock
  obtain rfl := hlock.unique hq
  cases hlock with
  | self => exact Lock.not_prefix_place h.named.ne_root
  | through _ _ hout => exact hout

/-- What a check that fails may do to a place: take away what is in the directory, or under the name of a new store, and
make the file of the lock. -/
def Spoils (w : Workspace) (d : Place) (place : Option Place) (v : Place) (n : Option Node) : Prop :=
  n = none ∧ d <+: v ∨
    (n = none ∨ n = some .directory) ∧ (∃ p, place = some p ∧ v = RecordStore.temporaryPlace p w.process) ∨
    w.tree.Resolves (fun _ => True) (Lock.place d) v ∧ w.tree.node? v = none ∧ ∃ m, n = some (.file .empty m)

/-- `w.Survives d place w'`: what is left by a check that fails. -/
structure Survives (d : Place) (place : Option Place) (w w' : Workspace) : Prop where
  /-- The records in memory, the process and the time. -/
  keeps : w.Keeps w'
  /-- What is changed. -/
  touches : Touches (w.Spoils d place) w.tree w'.tree
  /-- Nothing is new in the directory. -/
  inside : ∀ v, d <+: v → w'.tree.node? v = w.tree.node? v ∨ w'.tree.node? v = none
  /-- Directories elsewhere stay. -/
  directory : ∀ v, Outside d v → w.tree.node? v = some .directory → w'.tree.node? v = some .directory
  /-- What stands below the directory is in a directory. -/
  rooted : w'.tree.Rooted d

/-- No links are new, and those outside the directory stay. -/
theorem Survives.steady (h : w.Survives d place w') (hdetached : w.Detached dir store d place) :
    Steady d (fun _ => False) w.tree w'.tree := by
  refine ⟨h.touches.base, fun v target _ hlink => ?_, fun v target hv _ hlink => ?_⟩
  · rcases h.touches.node v with hsame | ⟨-, hdir⟩ | ⟨hnone, -⟩ | ⟨hnone | hdir, -⟩ | ⟨-, -, m, hfile⟩
    · exact hsame ▸ hlink
    · cases hdir.symm.trans hlink
    · cases hnone.symm.trans hlink
    · cases hnone.symm.trans hlink
    · cases hdir.symm.trans hlink
    · cases hfile.symm.trans hlink
  · rcases h.touches.node v with hsame | ⟨hnone, -⟩ | ⟨-, hle⟩ | ⟨-, p, hp, rfl⟩ | ⟨-, hnone, -⟩
    · exact hsame.trans hlink
    · cases hnone.symm.trans hlink
    · exact absurd hle hv
    · exact absurd hlink (hdetached.plain p target hp)
    · cases hnone.symm.trans hlink

/-- **All is as detached as it was.** -/
theorem Survives.detached (h : w.Survives d place w') (hdetached : w.Detached dir store d place) :
    w'.Detached dir store d place := hdetached.steady (h.steady hdetached) h.keeps.process h.rooted

/-- What stands where the store leads stays, and what is new there is a directory or the empty file of the lock. -/
theorem Survives.node_store (h : w.Survives d place w') (hdetached : w.Detached dir store d place) {p q : Place}
    (hp : place = some p) (hq : w.tree.Resolves (fun _ => True) p q) : w'.tree.node? q = w.tree.node? q ∨
      w.tree.node? q = none ∧ (w'.tree.node? q = some .directory ∨ ∃ m, w'.tree.node? q = some (.file .empty m)) := by
  rcases h.touches.node q with hsame | ⟨hnone, hdir⟩ | ⟨-, hle⟩ | ⟨-, p', hp', rfl⟩ | ⟨-, hnone, hfile⟩
  · exact .inl hsame
  · exact .inr ⟨hnone, .inl hdir⟩
  · exact absurd hle (hdetached.outside_store hp hq)
  · cases hp.symm.trans hp'
    exact absurd hq (hdetached.beside p hp)
  · exact .inr ⟨hnone, .inr hfile⟩

/-- **Nothing else is recorded than before.** -/
theorem Survives.records_iff (h : w.Survives d place w') (hdetached : w.Detached dir store d place) :
    w'.Records place root record ↔ w.Records place root record := by
  have hstands := h.detached hdetached
  cases place with
  | none => exact iff_of_eq (congrArg (fun rs => Table.find? rs root = some record) h.keeps.records)
  | some p =>
    obtain ⟨q, hq⟩ : ∃ q, w.tree.Resolves (Outside d) p q :=
      hdetached.store.exists_resolves ⟨p, rfl, .inl rfl⟩
    have hsteady := h.steady hdetached
    have hq' : w'.tree.Resolves (Outside d) p q :=
      hq.congr (fun target => ⟨hsteady.fewer p target id, hsteady.outside p target (hdetached.outside p rfl) id⟩)
        fun v target hv => ⟨hsteady.fewer v target id, hsteady.outside v target hv id⟩
    have hnode := h.node_store hdetached rfl (hq.mono fun _ _ => trivial)
    -- Of a place that resolves, records are those of the file where it leads.
    have hself : ∀ {t : FileTree}, t.Resolves (Outside d) p q → ((∃ q' c m, t.Resolves (fun _ => True) p q' ∧
        t.node? q' = some (.file c m) ∧ Table.find? (RecordStore.recordsOf c) root = some record) ↔
          ∃ c m, t.node? q = some (.file c m) ∧ Table.find? (RecordStore.recordsOf c) root = some record) := by
      intro t ht
      refine ⟨?_, fun ⟨c, m, hfile, hfound⟩ => ⟨q, c, m, ht.mono fun _ _ => trivial, hfile, hfound⟩⟩
      rintro ⟨q', c, m, hq', hfile, hfound⟩
      obtain rfl := ht.unique hq'
      exact ⟨c, m, hfile, hfound⟩
    refine (hself hq').trans (Iff.trans ?_ (hself hq).symm)
    -- A store that was not there has no records, and neither has a directory or an empty file.
    rcases hnode with hsame | ⟨hnone, hdir | ⟨m, hempty⟩⟩
    · rw [hsame]
    · simp [hnone, hdir]
    · have hnothing : RecordStore.recordsOf .empty = [] := rfl
      simp [hnone, hempty, hnothing]

/-- **What the store answered with a record**, it answers still. -/
theorem Survives.answer (h : w.Survives d place w') (hdetached : w.Detached dir store d place)
    (hanswer : store.answer w root = .ok (some record)) : store.answer w' root = .ok (some record) := by
  cases hstore : hdetached.store with
  | memory => rwa [RecordStore.answer_memory, h.keeps.records]
  | @file path p q _ hnamed hleads _ =>
    obtain ⟨rs, hrs, hfound⟩ := RecordStore.exists_recordsAt_of_answer hanswer
    obtain ⟨c, hread, rfl⟩ := RecordStore.exists_read_of_recordsAt hrs hfound
    obtain ⟨n, hway⟩ := hnamed.exists_leads hleads
    have hway' : Leads w.tree (Outside d) n (w.tree.start path) (DiskPath.steps path) q :=
      hway.mono fun v hv => hv.elim id fun hv => hv ▸ hdetached.outside p rfl
    have hretains : Retains (Outside d) w.tree w'.tree := by
      refine ⟨h.touches.base, fun v hv hpass => ?_⟩
      rcases hpass.leadsOn with hdir | ⟨target, hlink⟩
      · rw [hdir, h.directory v hv hdir]
      · rw [hlink, (h.steady hdetached).outside v target hv id hlink]
    obtain ⟨-, m, hfile⟩ := hway'.locate_of_read hread
    have hsame := (h.node_store hdetached rfl (hleads.mono fun _ _ => trivial)).resolve_right fun hnew => by
      cases hfile.symm.trans hnew.1
    rw [RecordStore.answer_file, RecordStore.recordsAt_of_read (hretains.read hway' hsame hread), Except.map, hfound]

/-- Taking the lock. -/
theorem Detached.acquire_survives (h : w.Detached dir store d place) (timeout : Nat) :
    (Lock.acquire dir timeout).Yields w fun r w' => w.Survives d place w' ∧
      (∀ v, d <+: v → w'.tree.node? v = w.tree.node? v) ∧ ((∃ ticket, r = .ok ticket) → w'.tree.Approaches dir d) := by
  obtain ⟨q, hlock⟩ := h.lock
  have hsame : (Lock.acquire dir timeout).Yields w fun _ w' => ∀ v, d <+: v → w'.tree.node? v = w.tree.node? v :=
    Lock.acquire_outside h.named (fun _ => id) (h.start dir (.inl rfl)) hlock
      (h.outside_lock (hlock.mono fun _ _ => trivial))
  have hkeeps := Lock.acquire_keeps w dir timeout w (.refl w)
  refine ((Lock.acquire_yields h.named hlock).and (hsame.and hkeeps)).mono ?_
  rintro r w' ⟨⟨-, -, hlocks, happroach⟩, hsame, hkeeps⟩
  refine ⟨⟨hkeeps, ?_, fun v hv => .inl (hsame v hv), fun v _ hdir => ?_, fun v n hv hn hplain => ?_⟩, hsame, happroach⟩
  · refine hlocks.mono fun v n hv => ?_
    obtain ⟨rfl, hnone, hfile⟩ := hv
    exact .inr (.inr ⟨hlock.mono fun _ _ => trivial, hnone, hfile⟩)
  · rcases hlocks.node v with hv | ⟨hnone, -⟩ | ⟨rfl, hnone, -⟩
    · exact hv.trans hdir
    · cases hnone.symm.trans hdir
    · cases hnone.symm.trans hdir
  · rw [hsame v (isBelow_iff.1 hv).1] at hn
    exact (hsame d (List.prefix_refl d)).trans (h.rooted v n hv hn hplain)

/-- Then the directory is cleared. -/
theorem Survives.clears {w₂ : Workspace} (h : w.Survives d place w₁) (hkeeps : w₁.Keeps w₂)
    (hclears : Clears d w₁.tree w₂.tree) : w.Survives d place w₂ where
  keeps := h.keeps.trans hkeeps
  touches := by
    refine ⟨hclears.base.trans h.touches.base, fun v => ?_⟩
    rcases hclears.node v with hsame | ⟨hle, hnone⟩
    · rw [hsame]
      exact h.touches.node v
    · exact .inr (.inr (.inl ⟨hnone, hle⟩))
  inside v hv := by
    rcases hclears.node v with hsame | ⟨-, hnone⟩
    · rw [hsame]
      exact h.inside v hv
    · exact .inr hnone
  directory v hv hdir :=
    (hclears.node_outside hv).trans (h.directory v hv hdir)
  rooted := hclears.rooted h.rooted

/-- And no record is put. -/
theorem Survives.withholds {w₂ : Workspace} (h : w.Survives d place w₁) (hdetached : w₁.Detached dir store d place)
    (hwithholds : store.Withholds (Outside d) place w₁ w₂) : w.Survives d place w₂ := by
  have hinside := hwithholds.outside d hdetached.named.ne_root
    (fun path hpath => hdetached.start path (.inr hpath)) fun _ => id
  refine ⟨h.keeps.trans hwithholds.keeps, ⟨hwithholds.touches.base.trans h.touches.base, fun v => ?_⟩, fun v hv => ?_,
    fun v hv hdir => hwithholds.directory v (h.directory v hv hdir), fun v n hv hn hplain => ?_⟩
  · rcases hwithholds.touches.node v with hsame | ⟨hnone, hdir⟩ | ⟨hnone, p, hp, hv⟩
    · rw [hsame]
      exact h.touches.node v
    · -- A directory is new where nothing stood, or where something was taken away before.
      rcases h.touches.node v with hsame | ⟨-, hdir'⟩ | ⟨-, hle⟩ | ⟨-, hbeside⟩ | ⟨-, -, m, hfile⟩
      · exact .inr (.inl ⟨hsame ▸ hnone, hdir⟩)
      · cases hnone.symm.trans hdir'
      · rcases hinside v hle with hsame | hnone'
        · cases hnone.symm.trans (hsame.symm.trans hdir)
        · cases hnone'.symm.trans hdir
      · exact .inr (.inr (.inr (.inl ⟨.inr hdir, hbeside⟩)))
      · cases hnone.symm.trans hfile
    · exact .inr (.inr (.inr (.inl ⟨.inl hnone, p, hp, h.keeps.process ▸ hv⟩)))
  · rcases hinside v hv with hsame | hnone
    · rw [hsame]
      exact h.inside v hv
    · exact .inr hnone
  · -- What stands below the directory stood there before the record was put.
    have hn₁ : w₁.tree.node? v = some n := by
      rcases hinside v (isBelow_iff.1 hv).1 with hsame | hnone
      · rw [← hsame, hn]
      · cases hnone.symm.trans hn
    exact hwithholds.directory d (h.rooted v n hv hn₁ hplain)

end Workspace

/-! ## (3) Where a check stops -/

namespace Root

variable {r : Root} {store : RecordStore} {d : Place} {place : Option Place} {s s' s'' : RootState} {x : ImportFailure}

/-- The steps of a check at which it may stop. -/
inductive Step where
  /-- Taking the lock. -/
  | locking
  /-- Asking for the record. -/
  | asking
  /-- Removing the directory. -/
  | removing
  /-- Putting the record. -/
  | recording
  deriving DecidableEq, Repr

/-- `r.StopsAt store s step x s'`: the step at which a check stops, with its error, and the state it leaves. The lock is
given back if it was taken. -/
inductive StopsAt (r : Root) (store : RecordStore) (s : RootState) : Step → ImportFailure → RootState → Prop
  /-- The lock was not taken. -/
  | locking {e : LockFailure} {w : Workspace}
      (acquire : (Lock.acquire r.dir r.lockTimeout).outcome s.workspace = (.error e, w)) :
      StopsAt r store s .locking (.lock e) { s with workspace := w }
  /-- The store did not answer. -/
  | asking {ticket : Nat} {e : StoreError} {w : Workspace}
      (acquire : (Lock.acquire r.dir r.lockTimeout).outcome s.workspace = (.ok ticket, w))
      (answer : store.answer w r.dir = .error e) :
      StopsAt r store s .asking (.ofStore e) { s with workspace := Lock.release ticket w }
  /-- The directory was not removed. -/
  | removing {ticket : Nat} {found : Option BuildRecord} {x : ImportFailure} {w w' : Workspace}
      (acquire : (Lock.acquire r.dir r.lockTimeout).outcome s.workspace = (.ok ticket, w))
      (answer : store.answer w r.dir = .ok found) (changed : compareBuild found r.tokens ≠ .unchanged)
      (remove : (Extraction.removeAll r.dir).outcome w = (.error x, w')) :
      StopsAt r store s .removing x { s with workspace := Lock.release ticket w' }
  /-- The record was not put. -/
  | recording {ticket : Nat} {found : Option BuildRecord} {e : StoreError} {w w₁ w' : Workspace}
      (acquire : (Lock.acquire r.dir r.lockTimeout).outcome s.workspace = (.ok ticket, w))
      (answer : store.answer w r.dir = .ok found) (changed : compareBuild found r.tokens ≠ .unchanged)
      (remove : (Extraction.removeAll r.dir).outcome w = (.ok (), w₁))
      (put : (store.put r.dir (.new r.tokens w₁.now)).outcome w₁ = (.error e, w')) :
      StopsAt r store s .recording (.ofStore e) { workspace := Lock.release ticket w', extracted := [] }

/-- **A check that fails stops at one of its steps.** -/
theorem exists_stopsAt (h : (r.checkBuild store).outcome s = (.error x, s')) : ∃ step, r.StopsAt store s step x s' := by
  cases course_of_outcome h with
  | locking hacquire => exact ⟨_, .locking hacquire⟩
  | asking hacquire hget => exact ⟨_, .asking hacquire (RecordStore.answer_of_get hget)⟩
  | removing hacquire hget hother hremove =>
    exact ⟨_, .removing hacquire (RecordStore.answer_of_get hget) (by simp [hother]) hremove⟩
  | recording hacquire hget hother hremove hput =>
    exact ⟨_, .recording hacquire (RecordStore.answer_of_get hget) (by simp [hother]) hremove hput⟩

/-! ## (4) What is left by a check that fails -/

/-- Giving the lock back changes nothing of that. -/
theorem survives_release {w w' : Workspace} (h : w.Survives d place w') (ticket : Nat) :
    w.Survives d place (Lock.release ticket w') :=
  ⟨⟨h.keeps.records, h.keeps.process, h.keeps.clock, h.keeps.serial⟩, h.touches, h.inside, h.directory, h.rooted⟩

/-- Taking the lock and removing the directory. -/
theorem removeAll_survives {w w₁ w₂ : Workspace} {out : Except ImportFailure Unit} {ticket : Nat}
    (h : w.Detached r.dir store d place)
    (hacquire : (Lock.acquire r.dir r.lockTimeout).outcome w = (.ok ticket, w₁))
    (hremove : (Extraction.removeAll r.dir).outcome w₁ = (out, w₂)) : w.Survives d place w₂ := by
  obtain ⟨hsurvives, -, happroach⟩ := (h.acquire_survives r.lockTimeout).of_outcome hacquire
  have hdetached := hsurvives.detached h
  obtain ⟨hkeeps, hclears, -⟩ := (Extraction.removeAll_yields hdetached.named (fun v hv hd => absurd hd hv)
    hdetached.rooted (happroach ⟨_, rfl⟩)).of_outcome hremove
  exact hsurvives.clears hkeeps hclears

/-- Once the directory is removed, a record that is not put leaves the store as it was. -/
theorem put_withholds_of_removeAll {w w₁ w₂ w₃ : Workspace} {out : Except ImportFailure Unit} {ticket : Nat}
    {record : BuildRecord} {e : StoreError} (h : w.Detached r.dir store d place)
    (hacquire : (Lock.acquire r.dir r.lockTimeout).outcome w = (.ok ticket, w₁))
    (hremove : (Extraction.removeAll r.dir).outcome w₁ = (out, w₂))
    (hput : (store.put r.dir record).outcome w₂ = (.error e, w₃)) : store.Withholds (Outside d) place w₂ w₃ := by
  have hdetached := (removeAll_survives h hacquire hremove).detached h
  exact (RecordStore.put_withholds hdetached.store hdetached.plain r.dir record).of_outcome hput ⟨e, rfl⟩

/-- **Wherever a check stops**, all but the directory is left. -/
theorem StopsAt.survives {step : Step} (h : s.workspace.Detached r.dir store d place)
    (hstops : r.StopsAt store s step x s') : s.workspace.Survives d place s'.workspace := by
  have hlocked := h.acquire_survives r.lockTimeout
  cases hstops with
  | locking hacquire => exact (hlocked.of_outcome hacquire).1
  | asking hacquire _ => exact survives_release (hlocked.of_outcome hacquire).1 _
  | removing hacquire _ _ hremove => exact survives_release (removeAll_survives h hacquire hremove) _
  | recording hacquire _ _ hremove hput =>
    have hremoved := removeAll_survives h hacquire hremove
    have hwithholds := put_withholds_of_removeAll h hacquire hremove hput
    exact survives_release (hremoved.withholds (hremoved.detached h) hwithholds) _

/-- `r.Setback d place s step s'`: what a check leaves of a root that stops at a step. -/
structure Setback (d : Place) (s : RootState) (step : Step) (s' : RootState) : Prop where
  /-- The packages whose data were extracted are known until the directory is gone. -/
  extracted : s'.extracted = if step = .recording then [] else s.extracted
  /-- The directory stays until the record is known. -/
  stays : step = .locking ∨ step = .asking → ∀ v, d <+: v → s'.workspace.tree.node? v = s.workspace.tree.node? v
  /-- Nothing is new there. -/
  inside : ∀ v, d <+: v → s'.workspace.tree.node? v = s.workspace.tree.node? v ∨ s'.workspace.tree.node? v = none
  /-- It is gone before a record is put. -/
  gone : step = .recording → ∀ v, d <+: v → s'.workspace.tree.node? v = none

/-- **A check that stops** sets its root back, at whichever step it stops. -/
theorem StopsAt.setback {step : Step} (htree : s.workspace.tree.IsTree) (h : s.workspace.Detached r.dir store d place)
    (hstops : r.StopsAt store s step x s') : Setback d s step s' := by
  have hinside := (hstops.survives h).inside
  have hlocked := h.acquire_survives r.lockTimeout
  cases hstops with
  | locking hacquire => exact ⟨rfl, fun _ => (hlocked.of_outcome hacquire).2.1, hinside, by simp⟩
  | asking hacquire _ => exact ⟨rfl, fun _ => (hlocked.of_outcome hacquire).2.1, hinside, by simp⟩
  | removing => exact ⟨rfl, by simp, hinside, by simp⟩
  | recording hacquire _ _ hremove hput =>
    obtain ⟨hsurvives, -, happroach⟩ := hlocked.of_outcome hacquire
    have hextends := (Workspace.acquire_extends s.workspace r.dir r.lockTimeout s.workspace (.refl htree)).of_outcome
      hacquire
    have hnamed := (hsurvives.detached h).named
    have hdetached := (removeAll_survives h hacquire hremove).detached h
    refine ⟨rfl, by simp, hinside, fun _ v hv => ?_⟩
    have hgone := Extraction.gone_of_removeAll hextends.isTree.toGrounded hnamed (fun _ => id) (happroach ⟨_, rfl⟩)
      hremove v hv
    rcases (put_withholds_of_removeAll h hacquire hremove hput).outside d hnamed.ne_root
      (fun path hpath => hdetached.start path (.inr hpath)) (fun _ => id) v hv with hsame | hnone
    · exact hsame.trans hgone
    · exact hnone

/-- **A check does not find nothing changed** where another record is than one of the tokens. -/
theorem checkBuild_ne_unchanged (h : s.workspace.Detached r.dir store d place)
    (hsorted : ∀ root ∈ s.workspace.records, Table.Sorted root.2.layers)
    (hdiffers : ∀ record, s.workspace.Records place r.dir record → record.layers ≠ r.tokens) :
    ((r.checkBuild store).outcome s).1 ≠ .ok .unchanged := by
  intro hcheck
  obtain ⟨ticket, w, w', record, hacquire, hanswer, hcompare, -⟩ := exists_of_checkBuild (outcome_eq_of_fst hcheck)
  have hsurvives := ((h.acquire_survives r.lockTimeout).of_outcome hacquire).1
  have hsorted' : ∀ found, record = some found → Table.Sorted found.layers := by
    rintro found rfl
    exact RecordStore.sorted_of_answer (hsurvives.keeps.records.symm ▸ hsorted) hanswer
  obtain ⟨found, rfl, hlayers⟩ := (compareBuild_iff hsorted' r.sorted_tokens).1 hcompare.symm
  have hget := (RecordStore.get_yields (hsurvives.detached h).store).of_outcome (RecordStore.outcome_get store w r.dir)
  exact hdiffers found ((hsurvives.records_iff h).1 (hget.2 found hanswer)) hlayers

/-- `r.Continues store d place s s'`: another check fails, or something else happens that leaves what is recorded of the
root, and all as detached as it is. -/
inductive Continues (r : Root) (store : RecordStore) (d : Place) (place : Option Place) (s s' : RootState) : Prop
  /-- A check that fails. -/
  | check {x : ImportFailure} (fails : (r.checkBuild store).outcome s = (.error x, s'))
  /-- Something else. -/
  | other (detached : s'.workspace.Detached r.dir store d place)
      (records : ∀ record, s'.workspace.Records place r.dir record → s.workspace.Records place r.dir record)
      (sorted : ∀ root ∈ s'.workspace.records, Table.Sorted root.2.layers)

/-- **A check that fails never advances the record.** It stops at a step of its own: before the record is known the
directory stays, and before a record is put the directory is gone. In any case all records stay, whatever the store
answered it answers still, what stands where it leads stays, and no file is new under the name of a new store. As long
as no record of the tokens is recorded, no later check finds nothing changed. -/
theorem checkBuild_setback (htree : s.workspace.tree.IsTree) (h : s.workspace.Detached r.dir store d place)
    (hsorted : ∀ root ∈ s.workspace.records, Table.Sorted root.2.layers)
    (hcheck : (r.checkBuild store).outcome s = (.error x, s')) :
    (∃ step, r.StopsAt store s step x s' ∧ Setback d s step s') ∧
    (∀ root record, s'.workspace.Records place root record ↔ s.workspace.Records place root record) ∧
    (∀ root record, store.answer s.workspace root = .ok (some record) →
      store.answer s'.workspace root = .ok (some record)) ∧
    (∀ p q n, place = some p → s.workspace.tree.Resolves (fun _ => True) p q → s.workspace.tree.node? q = some n →
      s'.workspace.tree.node? q = some n) ∧
    (∀ p c m, place = some p →
      s'.workspace.tree.node? (RecordStore.temporaryPlace p s.workspace.process) = some (.file c m) →
      s.workspace.tree.node? (RecordStore.temporaryPlace p s.workspace.process) = some (.file c m) ∨
        c = .empty ∧ s.workspace.tree.Resolves (fun _ => True) (Lock.place d)
          (RecordStore.temporaryPlace p s.workspace.process)) ∧
    ((∀ record, s.workspace.Records place r.dir record → record.layers ≠ r.tokens) →
      ∀ s'', Relation.ReflTransGen (r.Continues store d place) s' s'' →
        ((r.checkBuild store).outcome s'').1 ≠ .ok .unchanged) := by
  obtain ⟨step, hstops⟩ := exists_stopsAt hcheck
  have hsurvives := hstops.survives h
  refine ⟨⟨step, hstops, hstops.setback htree h⟩, fun root record => hsurvives.records_iff h,
    fun root record => hsurvives.answer h, fun p q n hp hq hn => ?_, fun p c m hp hfile => ?_,
    fun hdiffers s'' hrun => ?_⟩
  · exact ((hsurvives.node_store h hp hq).resolve_right fun hnew => by cases hn.symm.trans hnew.1).trans hn
  · -- A file under the name of a new store was there before, or it is a lock file, which is empty.
    rcases hsurvives.touches.node (RecordStore.temporaryPlace p s.workspace.process) with
      hsame | ⟨-, hdir⟩ | ⟨hnone, -⟩ | ⟨hnone | hdir, -⟩ | ⟨hlock, -, m', hempty⟩
    · exact .inl (hsame ▸ hfile)
    · cases hdir.symm.trans hfile
    · cases hnone.symm.trans hfile
    · cases hnone.symm.trans hfile
    · cases hdir.symm.trans hfile
    · cases hempty.symm.trans hfile
      exact .inr ⟨rfl, hlock⟩
  · -- By induction on what happens: all stays detached, and nothing else is recorded of the root.
    have hinvariant : s''.workspace.Detached r.dir store d place ∧
        (∀ root ∈ s''.workspace.records, Table.Sorted root.2.layers) ∧
          ∀ record, s''.workspace.Records place r.dir record → s.workspace.Records place r.dir record := by
      induction hrun with
      | refl =>
        exact ⟨hsurvives.detached h, hsurvives.keeps.records.symm ▸ hsorted, fun _ => (hsurvives.records_iff h).1⟩
      | tail _ hnext ih =>
        obtain ⟨hdetached, hsorted, hrecords⟩ := ih
        cases hnext with
        | check hfails =>
          obtain ⟨step, hstops⟩ := exists_stopsAt hfails
          have hagain := hstops.survives hdetached
          exact ⟨hagain.detached hdetached, hagain.keeps.records.symm ▸ hsorted,
            fun record hrecord => hrecords record ((hagain.records_iff hdetached).1 hrecord)⟩
        | other hdetached' hrecords' hsorted' =>
          exact ⟨hdetached', hsorted', fun record hrecord => hrecords record (hrecords' record hrecord)⟩
    obtain ⟨hdetached, hsorted, hrecords⟩ := hinvariant
    exact checkBuild_ne_unchanged hdetached hsorted fun record hrecord => hdiffers record (hrecords record hrecord)

/-- What is apart is detached, if the path of the directory begins outside it and the store does not lead to the file
under which a new one is written. -/
theorem detached_of_separate {w : Workspace} {dir : String} (h : w.Separate dir store d place)
    (hstart : Outside d (w.tree.start dir))
    (hbeside : ∀ p, place = some p → ¬ w.tree.Resolves (fun _ => True) p (RecordStore.temporaryPlace p w.process)) :
    w.Detached dir store d place := by
  obtain ⟨q, hlock⟩ := h.lock
  have haside : ∀ v, w.Aside d place v → Outside d v := fun _ hv => hv.1
  refine ⟨h.tree.rooted d, ?_, h.named.mono haside, ⟨q, hlock.mono haside⟩, h.store.mono haside, h.outside, h.plain,
    hbeside⟩
  rintro path (rfl | hpath)
  · exact hstart
  · exact h.start path hpath

/-- A state in which other tokens are recorded, something is extracted, and a directory stands under the name of a new
store. -/
def blocked : RootState :=
  { outdated with workspace := outdated.workspace.withTree (outdated.workspace.tree.bind [".s.1.tmp"] .directory) }

/-- The workspace of the example keeps its directory, lock and store apart. -/
theorem blocked_separate : blocked.workspace.Separate "/x" (.file "/s") ["x"] (some ["s"]) := by
  have htree : blocked.workspace.tree.IsTree :=
    ⟨grounded_of_nodes (by decide +kernel) (by decide +kernel), by unfold Table.Sorted; decide +kernel⟩
  have hlinks : blocked.workspace.tree.LinkFree := linkFree_of_nodes (by decide +kernel)
  have hbase : blocked.workspace.tree.base = [] := by decide +kernel
  generalize blocked.workspace = w at htree hlinks hbase
  exact separate_of_linkFree htree hlinks hbase (by decide +kernel) (by decide +kernel) (by decide) (by decide)

/-- A check removes what was extracted and cannot write the new record. The old one is there still, and the next check
does not find nothing changed. -/
theorem blocked_setback : ∃ s' record, ((labelled [("a", "1"), ("b", "2")]).checkBuild (.file "/s")).outcome blocked =
    (.error (.io (.refused .isADirectory)), s') ∧ s'.extracted = [] ∧ s'.workspace.tree.node? ["x"] = none ∧
      (RecordStore.file "/s").answer s'.workspace "/x" = .ok (some record) ∧ record.layers = [("a", "1"), ("b", "1")] ∧
        (((labelled [("a", "1"), ("b", "2")]).checkBuild (.file "/s")).outcome s').1 ≠ .ok .unchanged := by
  have hcheck : (((labelled [("a", "1"), ("b", "2")]).checkBuild (.file "/s")).outcome blocked).1 =
      .error (.io (.refused .isADirectory)) := by decide +kernel
  have hforgotten :
      (((labelled [("a", "1"), ("b", "2")]).checkBuild (.file "/s")).outcome blocked).2.extracted = [] := by
    decide +kernel
  have hextracted : blocked.extracted = ["p"] := by decide +kernel
  have hrecords : blocked.workspace.records.isEmpty = true := by decide +kernel
  have hbase : blocked.workspace.tree.base = [] := by decide +kernel
  have hlinks : blocked.workspace.tree.LinkFree := linkFree_of_nodes (by decide +kernel)
  have hfound : ((RecordStore.file "/s").answer blocked.workspace "/x").toOption.map
      (Option.map BuildRecord.layers) = some (some [("a", "1"), ("b", "1")]) := by decide +kernel
  have hseparate := blocked_separate
  generalize blocked = s at hcheck hforgotten hextracted hrecords hbase hlinks hfound hseparate
  obtain ⟨record, hanswer, hlayers⟩ : ∃ record, (RecordStore.file "/s").answer s.workspace "/x" = .ok (some record) ∧
      record.layers = [("a", "1"), ("b", "1")] := by
    rcases hanswer : (RecordStore.file "/s").answer s.workspace "/x" with x | _ | record
    · simp [hanswer, Except.toOption] at hfound
    · simp [hanswer, Except.toOption] at hfound
    · exact ⟨record, rfl, by simpa [hanswer, Except.toOption] using hfound⟩
  have hdetached : s.workspace.Detached "/x" (.file "/s") ["x"] (some ["s"]) := by
    refine detached_of_separate hseparate ?_ ?_
    · rw [FileTree.start, hbase, ite_self]
      exact fun hle => absurd (List.prefix_nil.1 hle) (by simp)
    · rintro p ⟨⟩ hq
      exact RecordStore.temporaryPlace_ne (by simp) _ (hq.unique (.self (A := fun _ => True) (hlinks _)))
  obtain ⟨⟨step, -, hsetback⟩, -, hanswers, -, -, hlater⟩ := checkBuild_setback hseparate.tree hdetached
    (by simp [List.isEmpty_iff.1 hrecords]) (outcome_eq_of_fst hcheck)
  -- What was extracted is forgotten, so the check came as far as recording.
  have hstep : step = .recording := by
    by_contra hne
    have := hsetback.extracted
    rw [if_neg hne, hforgotten, hextracted] at this
    cases this
  refine ⟨_, record, outcome_eq_of_fst hcheck, hforgotten, hsetback.gone hstep _ (List.prefix_refl _),
    hanswers _ _ hanswer, hlayers, hlater ?_ _ .refl⟩
  intro found hrecords hsame
  have hget : ((RecordStore.file "/s").get "/x").Yields s.workspace _ := RecordStore.get_yields hdetached.store
  rw [Yields, RecordStore.outcome_get] at hget
  rw [hrecords.unique (hget.2 record hanswer), hlayers] at hsame
  exact absurd hsame (by decide +kernel)

/-- A check of the root of one layer, where nothing is but a tree, and the data of a package were extracted. -/
def setBackIn (t : FileTree) (dir : String) (store : RecordStore) : Except ImportFailure BuildCheck × RootState :=
  (({ labelled [("a", "1")] with dir } : Root).checkBuild store).outcome ⟨.ofTree t, ["p"]⟩

/-- **Where paths pass the directory, a check that fails does more.** Where the path of the directory passes it, taking
the lock makes it, and where the lock file is a link into it, its file is made there. Where the path of the store passes
it, it stands again when the record is not put. And where a link stands under the name of a new store, that is written
through it. -/
theorem attached_diverges :
    ((setBackIn ⟨[(["s"], .directory)], []⟩ "/x/../x" (.file "/s")).1 = .error (.io (.refused .isADirectory)) ∧
      (setBackIn ⟨[(["s"], .directory)], []⟩ "/x/../x" (.file "/s")).2.extracted = ["p"] ∧
      (setBackIn ⟨[(["s"], .directory)], []⟩ "/x/../x" (.file "/s")).2.workspace.tree.has "/x" = true) ∧
    ((setBackIn ⟨[([".x.lock"], .link "/x/k"), (["s"], .directory), (["x"], .directory)], []⟩ "/x" (.file "/s")).1 =
        .error (.io (.refused .isADirectory)) ∧
      (setBackIn ⟨[([".x.lock"], .link "/x/k"), (["s"], .directory), (["x"], .directory)], []⟩ "/x"
        (.file "/s")).2.workspace.tree.has "/x/k" = true) ∧
    ((setBackIn ⟨[([".s.1.tmp"], .directory)], []⟩ "/x" (.file "/x/../s")).1 = .error (.io (.refused .isADirectory)) ∧
      (setBackIn ⟨[([".s.1.tmp"], .directory)], []⟩ "/x" (.file "/x/../s")).2.extracted = [] ∧
      (setBackIn ⟨[([".s.1.tmp"], .directory)], []⟩ "/x" (.file "/x/../s")).2.workspace.tree.has "/x" = true) ∧
    ((setBackIn ⟨[([".s.1.tmp"], .link "s")], []⟩ "/x" (.file "/s/")).1 = .error (.io (.refused .notADirectory)) ∧
      (setBackIn ⟨[([".s.1.tmp"], .link "s")], []⟩ "/x" (.file "/s/")).2.extracted = [] ∧
      (setBackIn ⟨[([".s.1.tmp"], .link "s")], []⟩ "/x" (.file "/s/")).2.workspace.tree.has "/s" = true) := by
  refine ⟨by decide +kernel, by decide +kernel, by decide +kernel, by decide +kernel⟩

end Root

end LayeredBundles
