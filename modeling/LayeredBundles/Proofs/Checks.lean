import LayeredBundles.Proofs.Stores

/-! # What a check of the build does

A check takes the lock beside the directory, reads the record, and removes what is out of date before it records the
new build.

* **`Lock.acquire_yields`** — taking the lock;
* **`Workspace.Checkable`** — the directory, the lock file and the store do not get in each other's way;
* **`Workspace.Checks`** — what a check does to a workspace;
* **`Root.Course`** — the ways in which a check goes; **`Root.checkBuild_course`** says that these are all;
* **`Root.checkBuild_yields`** — what a check leaves, and what its answer says of the record. -/

namespace LayeredBundles

open FileTree Fallible

/-! ## (1) The lock -/

namespace Lock

variable {w : Workspace} {A B : Place → Prop} {dir lock : String} {d p q : Place} {timeout : Nat}

/-- The place of the lock file of a directory. -/
def place [Charset] (d : Place) : Place := d.dropLast ++ [fileName (d.getLast?.getD "")]

/-- It has another name than the directory: it is shown as a longer one. -/
theorem fileName_ne [Charset] [LawfulCharset] (name : String) : fileName name ≠ name := by
  intro h
  have htext := congrArg Charset.text h
  rw [fileName, Charset.text_spell] at htext
  exact DiskPath.hidden_ne _ _ htext

/-- A lock file is not below its directory. -/
theorem not_prefix_place [Charset] [LawfulCharset] (hd : d ≠ []) : ¬ d <+: place d := by
  obtain ⟨q, name, rfl⟩ := List.eq_nil_or_concat d |>.resolve_left hd
  intro h
  rw [List.concat_eq_append] at h
  simp only [place, List.dropLast_concat, List.getLast?_concat, Option.getD_some, List.prefix_append_right_inj,
    List.cons_prefix_cons] at h
  exact fileName_ne name h.1.symm

/-- **The path of the lock file names its place**, by the end of its text. -/
theorem named_and_ends [Charset] [LawfulCharset] {t : FileTree} (h : t.Named A dir d)
    (hlock : Lock.path dir = .ok lock) :
    t.Named A lock (place d) ∧ Ends lock (place d) := by
  obtain ⟨n, xs, q, name, hsteps, hup, rfl, hway⟩ := h.way
  obtain ⟨xs', name', hname, hsteps', hlocksteps, habs, segs, hsegs⟩ := Lock.exists_of_path hlock
  obtain ⟨rfl, hsame⟩ := List.append_inj' (hsteps.symm.trans hsteps') rfl
  simp only [List.cons.injEq, and_true] at hsame
  subst hsame
  have hplace : place (q ++ [name]) = q ++ [fileName name] := by
    rw [place, List.dropLast_concat, List.getLast?_concat, Option.getD_some]
  have hstart : t.start lock = t.start dir := by rw [start, start, habs]
  have hends : Ends lock (q ++ [fileName name]) := ⟨segs, _, hsegs, List.getLast?_concat⟩
  rw [hplace]
  exact ⟨⟨⟨n, xs, q, fileName name, hlocksteps, (isName_fileName hname.slash).up, rfl, hstart ▸ hway⟩,
    fun _ _ => hends⟩, hends⟩

/-- A lock file is found beside the directory that it locks. -/
theorem named [Charset] [LawfulCharset] {t : FileTree} (h : t.Named A dir d) (hlock : Lock.path dir = .ok lock) :
    t.Named A lock (place d) :=
  (named_and_ends h hlock).1

/-- What taking a lock does to a tree: an empty file may be new. -/
abbrev Locks (p : Place) (t t' : FileTree) : Prop :=
  Touches (fun v n => v = p ∧ t.node? p = none ∧ ∃ m, n = some (.file .empty m)) t t'

/-- A file that is new is no link, and stands where none was. -/
theorem Locks.sameLinks {t t' : FileTree} (h : Locks p t t') : SameLinks t t' := by
  refine ⟨h.base, fun v target => ?_⟩
  rcases h.node v with hsame | ⟨hnone, hdir⟩ | ⟨rfl, hnone, m, hfile⟩
  · rw [hsame]
  · rw [hnone, hdir]; simp
  · rw [hnone, hfile]; simp

/-- To lock is to write the lock file at most. -/
theorem Locks.writes {t t' : FileTree} (h : Locks p t t') (K : Place → Prop) : Writes (· = p) K t t' := by
  refine ⟨h.mono fun v n hv => hv.1, fun v hv => ?_, fun v target _ => h.sameLinks.link_iff v target⟩
  rcases h.node v with hsame | ⟨hnone, -⟩ | ⟨rfl, hnone, -⟩
  · rw [hsame, hv]
  · rw [hnone] at hv; cases hv
  · rw [hnone] at hv; cases hv

/-- Taking a lock at most makes its file, and where it succeeds the way to the file is open. -/
theorem take_yields [Charset] (hnamed : w.tree.Named A lock p) (hleads : w.tree.Resolves B p q) :
    (take lock timeout).Yields w fun r w' =>
      w'.process = w.process ∧ w'.records = w.records ∧ Locks q w.tree w'.tree ∧
        ((∃ ticket, r = .ok ticket) → w'.tree.Reaches A lock p) := by
  rw [Yields, take, outcome_ofOutcome]
  unfold ensureFile
  rcases hlocate : w.tree.locateFile lock with x | ⟨v, _ | n⟩
  · exact ⟨rfl, rfl, .refl _ _, by simp⟩
  · obtain ⟨rfl, hnone, -, -, hreaches⟩ := locateFile_named hnamed hleads hlocate
    have hroot : v ≠ [] := by
      rintro rfl
      rw [node?_root] at hnone
      cases hnone
    have hsets := sets_bind w.tree hroot (.file .empty w.clock)
    -- The lock file is new where nothing stood, and is a file.
    have htouches : Locks v w.tree (w.tree.bind v (.file .empty w.clock)) := by
      refine ⟨rfl, fun v' => ?_⟩
      rw [hsets.node]
      split
      · next hv => exact .inr (.inr ⟨hv, hnone.symm, _, rfl⟩)
      · exact .inl rfl
    -- Nothing could be passed where nothing stood, so the way to it is as it was.
    have hreaches' : (w.tree.bind v (.file .empty w.clock)).Reaches A lock p := by
      refine hreaches.congr rfl fun v' _ hpass => ?_
      rw [hsets.node, if_neg]
      rintro rfl
      rcases hpass.leadsOn with h | ⟨target, h⟩ <;> rw [← hnone] at h <;> cases h
    dsimp only
    split
    · exact ⟨rfl, rfl, htouches, by simp⟩
    · exact ⟨rfl, rfl, htouches, fun _ => hreaches'⟩
  · obtain ⟨rfl, -, -, -, hreaches⟩ := locateFile_named hnamed hleads hlocate
    dsimp only
    split
    · exact ⟨rfl, rfl, .refl _ _, by simp⟩
    · exact ⟨rfl, rfl, .refl _ _, fun _ => hreaches⟩

/-- **Where there is no lock file, nothing is changed.** -/
theorem acquire_of_path [Charset] {e : LockFailure} (hpath : path dir = .error e) (w : Workspace) (timeout : Nat) :
    (acquire dir timeout).outcome w = (.error e, w) := by
  rw [acquire, hpath]
  rfl

/-- **Where there is one**, what it stands in is made first. -/
theorem exists_acquire_eq [Charset] [LawfulCharset] (hpath : path dir = .ok lock) (timeout : Nat) :
    ∃ front xs name, DiskPath.steps dir = xs ++ [name] ∧ DiskPath.steps front = xs ∧
      DiskPath.isAbsolute front = DiskPath.isAbsolute dir ∧ DiskPath.parent? lock = some front ∧
      acquire dir timeout =
        (Workspace.createDirectories front).failingAs .io >>= fun _ => take lock timeout := by
  obtain ⟨xs, name, -, hsteps, hlocksteps, habs, -⟩ := exists_of_path hpath
  obtain ⟨front, hfront, hfrontsteps, hfrontabs⟩ := DiskPath.exists_parent hlocksteps
  refine ⟨front, xs, name, hsteps, hfrontsteps, hfrontabs.trans habs, hfront, ?_⟩
  have hbind : ∀ f : String → Work LockFailure Nat, (Fallible.ofExcept (.ok lock) >>= f) = f lock := fun _ => rfl
  rw [acquire, hpath, hbind]
  simp only [hfront]

/-- **Taking the lock of a directory** at most makes directories and the file that the lock leads to, and where it
succeeds the way to the directory is open. -/
theorem acquire_yields [Charset] [LawfulCharset] (hnamed : w.tree.Named A dir d)
    (hleads : w.tree.Resolves B (place d) q) :
    (acquire dir timeout).Yields w fun r w' => w'.process = w.process ∧ w'.records = w.records ∧
      Locks q w.tree w'.tree ∧ ((∃ ticket, r = .ok ticket) → w'.tree.Approaches dir d) := by
  rcases hpath : Lock.path dir with x | lock
  · rw [Yields, acquire_of_path hpath]
    exact ⟨rfl, rfl, .refl _ _, by rintro ⟨_, ⟨⟩⟩⟩
  · have hlock := named hnamed hpath
    obtain ⟨xs, name, hname, hsteps, hlocksteps, habs, -⟩ := Lock.exists_of_path hpath
    obtain ⟨front, -, -, -, -, -, -, hacquire⟩ := exists_acquire_eq hpath timeout
    rw [hacquire]
    refine Yields.bind (P := fun _ w₁ => w.Prepares w₁) (Workspace.createDirectories_yields w front) ?_ ?_
    case refine_2 =>
      exact fun x w₁ h => ⟨h.keeps.process, h.keeps.records, h.adds.mono fun _ _ => False.elim,
        by simp⟩
    intro _ w₁ hprepares
    have hsame := hprepares.adds.sameLinks
    refine (take_yields (hsame.named hlock) (hsame.resolves hleads)).mono ?_
    rintro r w₂ ⟨hprocess, hrecords, hlocks, hopen⟩
    refine ⟨hprocess.trans hprepares.keeps.process, hrecords.trans hprepares.keeps.records, ?_, fun hok => ?_⟩
    · refine Adds.trans hprepares.adds ⟨hlocks.base, fun v => ?_⟩
      refine (hlocks.node v).imp id (Or.imp id ?_)
      rintro ⟨hv, hnone, hn⟩
      refine ⟨hv, ?_, hn⟩
      rcases hprepares.adds.node q with hsame | ⟨hnone', -⟩ | hfalse
      · rw [← hsame, hnone]
      · exact hnone'
      · exact hfalse.elim
    · -- The directory stands beside its lock file, so the way to one leads to the other.
      have happroach := (hopen hok).approaches_beside hlocksteps hsteps habs.symm hname.up
      have hd : (place d).dropLast ++ [name] = d := by
        obtain ⟨n, xs', q, name', hsteps', -, hd, -⟩ := hnamed.way
        obtain ⟨-, hsame⟩ := List.append_inj' (hsteps'.symm.trans hsteps) rfl
        simp only [List.cons.injEq, and_true] at hsame
        rw [hd, place, List.dropLast_concat, List.dropLast_concat, hsame]
      rwa [hd] at happroach

end Lock

/-! ## (2) The check -/

/-- The places a check writes to: those of the store, and that to which the lock file leads. -/
def Root.CheckFiles (w : Workspace) (d : Place) (place : Option Place) (v : Place) : Prop :=
  w.tree.Resolves (fun _ => True) (Lock.place d) v ∨ RecordStore.Uses w place v

/-- The places that the paths of a check may pass: no link at or below the directory, and no file of the store, if one
of them is a link. -/
def Workspace.Free (w : Workspace) (d : Place) (place : Option Place) (v : Place) : Prop :=
  w.tree.Unlinked d v ∧ ¬ w.Shifts place v

/-- `w.Checkable dir store d place`: the directory, the lock file and the store do not get in each other's way. -/
structure Workspace.Checkable (w : Workspace) (dir : String) (store : RecordStore) (d : Place)
    (place : Option Place) : Prop where
  /-- What the path of the directory names. -/
  named : w.tree.Named (w.Free d place) dir d
  /-- The lock file leads somewhere. -/
  lock : ∃ q, w.tree.Resolves (w.Free d place) (Lock.place d) q
  /-- Where the store stands. -/
  store : store.StandsAt w (w.Free d place) place
  /-- Nothing is written below the directory. -/
  files : ∀ v, Root.CheckFiles w d place v → isBelow d v = false
  /-- A link that is put in place of the store is not the directory. -/
  shifts : ∀ v, w.Shifts place v → ¬ d <+: v
  /-- Files and links below the directory stand in a directory. -/
  rooted : w.tree.Rooted d

/-- `w.Checks d place w'`: what a check does to a workspace. -/
structure Workspace.Checks (d : Place) (place : Option Place) (w w' : Workspace) : Prop where
  /-- The process. -/
  process : w'.process = w.process
  /-- What it does to the tree. -/
  tidies : Tidies d (Root.CheckFiles w d place) (w.Shifts place) w.tree w'.tree
  /-- Nothing else will be written to. -/
  files : ∀ v, Root.CheckFiles w' d place v → Root.CheckFiles w d place v
  /-- Nor will other links be put in place or taken away. -/
  shifts : ∀ v, w'.Shifts place v → w.Shifts place v

namespace Workspace

variable {w w' w'' : Workspace} {A B : Place → Prop} {dir root : String} {store : RecordStore} {d : Place}
  {place : Option Place}

/-- One check after another is as good as a check. -/
theorem Checks.trans (h : w.Checks d place w') (h' : w'.Checks d place w'') : w.Checks d place w'' where
  process := h'.process.trans h.process
  tidies := h.tidies.trans (h'.tidies.mono h.files h.shifts)
  files v hv := h.files v (h'.files v hv)
  shifts v hv := h.shifts v (h'.shifts v hv)

/-- A link at a file of the store may be shifted. -/
theorem shifts_of_link {u : Place} {target : String} (hu : RecordStore.Files place w.process u)
    (hlink : w.tree.node? u = some (.link target)) : w.Shifts place u := ⟨hu, u, target, hu, hlink⟩

/-- Where a store may not shift links, none are new among its files. -/
theorem shifts_of_fewer (hprocess : w'.process = w.process)
    (hfewer : ∀ v target, ¬ w.Shifts place v → w'.tree.node? v = some (.link target) →
      w.tree.node? v = some (.link target)) (v : Place) (hv : w'.Shifts place v) : w.Shifts place v := by
  obtain ⟨hfile, u, target, hu, hlink⟩ := hv
  rw [hprocess] at hfile hu
  by_cases hshifts : w.Shifts place u
  · exact ⟨hfile, hshifts.2⟩
  · exact ⟨hfile, u, target, hu, hfewer u target hshifts hlink⟩

/-- Where the links on its way are the same, the lock file leads where it led, unless it is a file of the store. -/
theorem exists_resolves_lock {q : Place} (hlock : w.tree.Resolves A (Lock.place d) q)
    (hprocess : w'.process = w.process)
    (hlinks : ∀ v target, A v ∨ v = Lock.place d ∧ ¬ w.Shifts place v →
      (w'.tree.node? v = some (.link target) ↔ w.tree.node? v = some (.link target)))
    (hAB : ∀ v, A v → B v) (hstands : store.StandsAt w' B place) :
    (∃ q', w'.tree.Resolves B (Lock.place d) q') ∧
      ∀ v, Root.CheckFiles w' d place v → Root.CheckFiles w d place v ∨ RecordStore.Uses w' place v := by
  -- The lock file may itself be a file of the store: then the store has a place for it to lead to.
  by_cases hshifts : w.Shifts place (Lock.place d)
  · have hfile : RecordStore.Files place w'.process (Lock.place d) := hprocess ▸ hshifts.1
    exact ⟨hstands.exists_resolves hfile, fun v hv => .inr <| hv.elim (fun hv => ⟨_, hfile, .inr hv⟩) id⟩
  · have hlock' := hlock.congr (fun target => hlinks _ target (.inr ⟨rfl, hshifts⟩)) fun v target hv =>
      hlinks v target (.inl hv)
    refine ⟨⟨q, hlock'.mono hAB⟩, fun v hv => hv.imp (fun hv => .inl ?_) id⟩
    obtain rfl := hlock'.unique hv
    exact hlock.mono fun _ _ => trivial

/-- The links at places that may be passed are the same, and where the lock file stands. -/
theorem Checkable.link_iff (h : w.Checkable dir store d place) (hs : Steady d (w.Shifts place) w.tree w'.tree)
    {v : Place} (hv : w.Free d place v ∨ v = Lock.place d ∧ ¬ w.Shifts place v) (target : String) :
    w'.tree.node? v = some (.link target) ↔ w.tree.node? v = some (.link target) := by
  rcases hv with hv | ⟨rfl, hshifts⟩
  · exact hs.link_iff hv.1 hv.2 target
  · have hout := Lock.not_prefix_place h.named.ne_root
    exact hs.link_iff (fun hd => absurd hd hout) hshifts target

/-- What paths may pass before a check, they may pass after it. -/
theorem Free.steady {v : Place} (hv : w.Free d place v) (hs : Steady d (w.Shifts place) w.tree w'.tree)
    (hprocess : w'.process = w.process) : w'.Free d place v :=
  ⟨hs.unlinked hv.1 hv.2, fun hshifts => hv.2 (shifts_of_fewer hprocess hs.fewer v hshifts)⟩

/-- **What could be checked can be checked again**, if the store stands still. -/
theorem Checkable.change (h : w.Checkable dir store d place) (hs : Steady d (w.Shifts place) w.tree w'.tree)
    (hprocess : w'.process = w.process) (hstands : store.StandsAt w' (w.Free d place) place)
    (huses : ∀ v, RecordStore.Uses w' place v → RecordStore.Uses w place v) (hrooted : w'.tree.Rooted d) :
    w'.Checkable dir store d place ∧ ∀ v, Root.CheckFiles w' d place v → Root.CheckFiles w d place v := by
  have hfree : ∀ v, w.Free d place v → w'.Free d place v := fun v hv => hv.steady hs hprocess
  have hshifts := shifts_of_fewer hprocess hs.fewer
  obtain ⟨q, hlock⟩ := h.lock
  obtain ⟨hlock', hfiles'⟩ := exists_resolves_lock hlock hprocess (fun v target hv => h.link_iff hs hv target) hfree
    (hstands.mono hfree)
  have hfiles : ∀ v, Root.CheckFiles w' d place v → Root.CheckFiles w d place v := fun v hv =>
    (hfiles' v hv).elim id fun huse => .inr (huses v huse)
  refine ⟨⟨?_, hlock', hstands.mono hfree, fun v hv => h.files v (hfiles v hv), fun v hv => h.shifts v (hshifts v hv),
    hrooted⟩, hfiles⟩
  refine (h.named.congr hs.base (fun v target hv => h.link_iff hs (.inl hv) target) fun target hlink => ?_).mono hfree
  exact h.named.ends target (hs.fewer d target (fun hd => h.shifts d hd (List.prefix_refl d)) hlink)

/-- Where no links are shifted, the store leads where it led. -/
theorem Checkable.steady (h : w.Checkable dir store d place) (hs : Steady d (fun _ => False) w.tree w'.tree)
    (hprocess : w'.process = w.process) (hrooted : w'.tree.Rooted d) :
    w'.Checkable dir store d place ∧ (∀ v, Root.CheckFiles w' d place v → Root.CheckFiles w d place v) ∧
      ∀ u v, RecordStore.Files place w.process u → w'.tree.Resolves (fun _ => True) u v →
        w.tree.Resolves (fun _ => True) u v := by
  have hlinks : ∀ v target, w.Free d place v ∨ RecordStore.Files place w.process v →
      (w'.tree.node? v = some (.link target) ↔ w.tree.node? v = some (.link target)) := by
    rintro v target (hv | hv)
    · exact hs.link_iff hv.1 id target
    · exact ⟨hs.fewer v target id, fun hlink => hs.outside v target (h.shifts v (shifts_of_link hv hlink)) id hlink⟩
  -- The store stands where it stood, and then everything else does too.
  obtain ⟨hstands, hleads⟩ := h.store.congr hs.base hprocess hlinks
  have hsteady : Steady d (w.Shifts place) w.tree w'.tree :=
    ⟨hs.base, fun v target _ => hs.fewer v target id, fun v target hv _ => hs.outside v target hv id⟩
  obtain ⟨hcheck, hfiles⟩ :=
    h.change hsteady hprocess hstands (RecordStore.uses_of_resolves hprocess hleads) hrooted
  exact ⟨hcheck, hfiles, hleads⟩

/-- Tidying that shifts no links is part of a check, and the store leads where it led. -/
theorem Checkable.tidies (h : w.Checkable dir store d place)
    (htidies : Tidies d (Root.CheckFiles w d place) (fun _ => False) w.tree w'.tree)
    (hprocess : w'.process = w.process) :
    w.Checks d place w' ∧ w'.Checkable dir store d place ∧ ∀ u v, RecordStore.Files place w.process u →
      w'.tree.Resolves (fun _ => True) u v → w.tree.Resolves (fun _ => True) u v := by
  obtain ⟨hcheck, hfiles, hleads⟩ := h.steady htidies.steady hprocess (htidies.rooted h.rooted)
  exact ⟨⟨hprocess, htidies.mono (fun _ => id) fun _ => False.elim, hfiles,
    shifts_of_fewer hprocess fun v target _ => htidies.steady.fewer v target id⟩, hcheck, hleads⟩

/-- So is putting a record. What is bare stays so. -/
theorem Checkable.stored {record : BuildRecord} {out : Except StoreError Unit} (h : w.Checkable dir store d place)
    (hstored : RecordStore.Stored store (w.Free d place) place root record w out w') :
    w.Checks d place w' ∧ w'.Checkable dir store d place ∧
      (Extraction.Bare w.tree d → Extraction.Bare w'.tree d) := by
  have htidies : Tidies d (Root.CheckFiles w d place) (w.Shifts place) w.tree w'.tree :=
    (hstored.writes.mono fun _ => .inr).tidies h.files
  obtain ⟨hcheck, hfiles⟩ :=
    h.change htidies.steady hstored.process hstored.stands hstored.uses (htidies.rooted h.rooted)
  exact ⟨⟨hstored.process, htidies, hfiles, shifts_of_fewer hstored.process htidies.steady.fewer⟩, hcheck, fun hbare =>
    hbare.writes hstored.writes (fun v hv => h.files v (.inr hv)) fun hd => h.shifts d hd (List.prefix_refl d)⟩

/-- **Taking the lock** makes no record. -/
theorem Checkable.locks (root : String) {q : Place} (h : w.Checkable dir store d place)
    (hq : w.tree.Resolves (fun _ => True) (Lock.place d) q) (hprocess : w'.process = w.process)
    (hrecords : w'.records = w.records) (hlocks : Lock.Locks q w.tree w'.tree) :
    w.Checks d place w' ∧ w'.Checkable dir store d place ∧ w.Forgets place root w' := by
  have hfiles : ∀ v, v = q → Root.CheckFiles w d place v := fun v hv => .inl (hv ▸ hq)
  obtain ⟨hchecks, hcheck, hleads⟩ := h.tidies (((hlocks.writes _).mono hfiles).tidies h.files) hprocess
  refine ⟨hchecks, hcheck, forgets_of_node hrecords fun p v hp hv =>
    ⟨hleads p v ⟨p, hp, .inl rfl⟩ hv, fun c m hfile => ?_⟩⟩
  rcases hlocks.node v with hsame | ⟨-, hdir⟩ | ⟨-, -, m', hempty⟩
  · exact .inl (hsame ▸ hfile)
  · rw [hdir] at hfile; cases hfile
  · rw [hempty] at hfile
    cases hfile
    exact .inr rfl

/-- **Clearing the directory** loses at most what a store in its stead holds. -/
theorem Checkable.clears (root : String) (h : w.Checkable dir store d place) (hkeeps : w.Keeps w')
    (hclears : Clears d w.tree w'.tree) :
    w.Checks d place w' ∧ w'.Checkable dir store d place ∧ w.Forgets place root w' := by
  obtain ⟨hchecks, hcheck, hleads⟩ := h.tidies (hclears.tidies _ _) hkeeps.process
  refine ⟨hchecks, hcheck, forgets_of_node hkeeps.records fun p v hp hv =>
    ⟨hleads p v ⟨p, hp, .inl rfl⟩ hv, fun c m hfile => .inl ?_⟩⟩
  rcases hclears.node v with hsame | ⟨-, hnone⟩
  · exact hsame ▸ hfile
  · rw [hnone] at hfile; cases hfile

end Workspace

namespace Root

variable {r : Root} {store : RecordStore} {d : Place} {place : Option Place} {s : RootState}

/-- Work on the workspace of a root leaves what the root remembers. -/
theorem yields_ofWork {α : Type} {a : Work ImportFailure α} {Q : Except ImportFailure α → RootState → Prop} :
    (RootWork.ofWork a).Yields s Q ↔ a.Yields s.workspace fun out w => Q out { s with workspace := w } := Iff.rfl

/-- Something done under the lock begins where taking the lock ends, and the lock is given back. -/
theorem holdingLock_yields {α : Type} {act : RootWork α} {Q : Except ImportFailure α → RootState → Prop}
    {P : Except LockFailure Nat → Workspace → Prop}
    (hlock : (Lock.acquire r.dir r.lockTimeout).Yields s.workspace P)
    (herror : ∀ x w, P (.error x) w → Q (.error (.lock x)) { s with workspace := w })
    (hact : ∀ ticket w, P (.ok ticket) w → act.Yields { s with workspace := w } fun out s' =>
      Q out { s' with workspace := Lock.release ticket s'.workspace }) : (r.holdingLock act).Yields s Q := by
  unfold holdingLock
  refine Yields.bind (P := fun out s' => ∃ out' w, P out' w ∧ out = out'.mapError .lock ∧
    s' = { s with workspace := w }) ?_ ?_ ?_
  · rw [yields_ofWork, yields_failingAs]
    exact hlock.mono fun out w h => ⟨out, w, h, rfl, rfl⟩
  · rintro ticket _ ⟨out | ticket', w, hP, hout, rfl⟩
    · cases hout
    · cases hout
      rw [yields_attempt_bind]
      exact hact ticket w hP
  · rintro x _ ⟨out | ticket', w, hP, hout, rfl⟩
    · cases hout
      exact herror _ _ hP
    · cases hout

/-- `r.Course store s out s'`: the ways in which a check goes. The lock is given back if it was taken. -/
inductive Course (r : Root) (store : RecordStore) (s : RootState) : Except ImportFailure BuildCheck → RootState → Prop
  /-- The lock is not taken. -/
  | locking {e : LockFailure} {w : Workspace}
      (acquire : (Lock.acquire r.dir r.lockTimeout).outcome s.workspace = (.error e, w)) :
      Course r store s (.error (.lock e)) { s with workspace := w }
  /-- The record is not got. -/
  | asking {ticket : Nat} {e : StoreError} {w : Workspace}
      (acquire : (Lock.acquire r.dir r.lockTimeout).outcome s.workspace = (.ok ticket, w))
      (get : (store.get r.dir).outcome w = (.error e, w)) :
      Course r store s (.error (.ofStore e)) { s with workspace := Lock.release ticket w }
  /-- The record is of the same tokens, and temporary files are removed. -/
  | swept {ticket count : Nat} {found : Option BuildRecord} {w w' : Workspace}
      (acquire : (Lock.acquire r.dir r.lockTimeout).outcome s.workspace = (.ok ticket, w))
      (get : (store.get r.dir).outcome w = (.ok found, w)) (same : compareBuild found r.tokens = .unchanged)
      (sweep : (Extraction.removeTemporaries r.dir).outcome w = (.ok count, w')) :
      Course r store s (.ok .unchanged) { s with workspace := Lock.release ticket w' }
  /-- The record is another one, and the directory is not removed. -/
  | removing {ticket : Nat} {found : Option BuildRecord} {changed : List String} {x : ImportFailure} {w w' : Workspace}
      (acquire : (Lock.acquire r.dir r.lockTimeout).outcome s.workspace = (.ok ticket, w))
      (get : (store.get r.dir).outcome w = (.ok found, w)) (other : compareBuild found r.tokens = .invalidated changed)
      (remove : (Extraction.removeAll r.dir).outcome w = (.error x, w')) :
      Course r store s (.error x) { s with workspace := Lock.release ticket w' }
  /-- The directory is removed, and the new record is not put. -/
  | recording {ticket : Nat} {found : Option BuildRecord} {changed : List String} {e : StoreError} {w w₁ w' : Workspace}
      (acquire : (Lock.acquire r.dir r.lockTimeout).outcome s.workspace = (.ok ticket, w))
      (get : (store.get r.dir).outcome w = (.ok found, w)) (other : compareBuild found r.tokens = .invalidated changed)
      (remove : (Extraction.removeAll r.dir).outcome w = (.ok (), w₁))
      (put : (store.put r.dir (.new r.tokens w₁.now)).outcome w₁ = (.error e, w')) :
      Course r store s (.error (.ofStore e)) { workspace := Lock.release ticket w', extracted := [] }
  /-- The directory is removed, and the new record is put. -/
  | recorded {ticket : Nat} {found : Option BuildRecord} {changed : List String} {w w₁ w' : Workspace}
      (acquire : (Lock.acquire r.dir r.lockTimeout).outcome s.workspace = (.ok ticket, w))
      (get : (store.get r.dir).outcome w = (.ok found, w)) (other : compareBuild found r.tokens = .invalidated changed)
      (remove : (Extraction.removeAll r.dir).outcome w = (.ok (), w₁))
      (put : (store.put r.dir (.new r.tokens w₁.now)).outcome w₁ = (.ok (), w')) :
      Course r store s (.ok (.invalidated changed)) { workspace := Lock.release ticket w', extracted := [] }

/-- **A check goes in one of these ways.** -/
theorem checkBuild_course (r : Root) (store : RecordStore) (s : RootState) :
    (r.checkBuild store).Yields s (r.Course store s) := by
  unfold checkBuild
  refine holdingLock_yields (P := fun out w => (Lock.acquire r.dir r.lockTimeout).outcome s.workspace = (out, w)) rfl
    (fun _ _ => .locking) ?_
  intro ticket w hacquire
  -- To ask the store changes nothing.
  have hget : ((store.get r.key).outcome w).2 = w := (RecordStore.get_finds store w r.dir).1.symm
  refine Yields.bind (P := fun out s₁ => ∃ found, (store.get r.dir).outcome w = (found, w) ∧
    out = found.mapError .ofStore ∧ s₁ = { s with workspace := w }) ?_ ?_ ?_
  · rw [yields_ofWork, yields_failingAs]
    exact ⟨_, Prod.ext rfl hget, rfl, by rw [hget]⟩
  rotate_left
  · rintro _ _ ⟨e | found, hget, ⟨⟩, rfl⟩
    exact .asking hacquire hget
  rintro found _ ⟨e | _, hget, ⟨⟩, rfl⟩
  dsimp only
  split
  · next hsame =>
    rw [hsame]
    exact .swept hacquire hget hsame rfl
  · -- Another build: all is removed, forgotten, and only then recorded.
    next changed hother =>
    refine Yields.bind (P := fun out s₁ => ∃ w₁, (Extraction.removeAll r.dir).outcome w = (out, w₁) ∧
      s₁ = { s with workspace := w₁ }) ⟨_, rfl, rfl⟩ ?_ fun x s₁ ⟨w₁, hremove, hs₁⟩ => ?_
    rotate_left
    · rw [hs₁]
      exact .removing hacquire hget hother hremove
    rintro ⟨⟩ _ ⟨w₁, hremove, rfl⟩
    refine Yields.bind (P := fun out s₁ => out = .ok () ∧ s₁ = { workspace := w₁, extracted := [] }) ⟨rfl, rfl⟩ ?_
      (by simp)
    rintro _ _ ⟨-, rfl⟩
    rw [yields_get_bind]
    refine Yields.bind (P := fun out s₁ => ∃ put w', (store.put r.dir (.new r.tokens w₁.now)).outcome w₁ = (put, w') ∧
      out = put.mapError .ofStore ∧ s₁ = { workspace := w', extracted := [] }) ⟨_, _, rfl, rfl, rfl⟩ ?_ ?_
    · rintro _ _ ⟨e | ⟨⟩, w', hput, ⟨⟩, rfl⟩
      rw [hother]
      exact .recorded hacquire hget hother hremove hput
    · rintro _ _ ⟨e | ⟨⟩, w', hput, ⟨⟩, rfl⟩
      exact .recording hacquire hget hother hremove hput

/-- How a check went that came to something. -/
theorem course_of_outcome {s' : RootState} {out : Except ImportFailure BuildCheck}
    (h : (r.checkBuild store).outcome s = (out, s')) : r.Course store s out s' :=
  (checkBuild_course r store s).of_outcome h

/-- Builds are found unchanged only by a record with no layer that differs. -/
theorem exists_of_unchanged {record : Option BuildRecord} {current : Tokens}
    (h : compareBuild record current = .unchanged) :
    ∃ found, record = some found ∧ found.differing current = [] := by
  unfold compareBuild at h
  split at h
  · cases h
  · next found =>
    split at h
    · next hdiffering => exact ⟨found, rfl, hdiffering⟩
    · cases h

/-- What the answer of a check says of the record, before and after, of the directory, and of the packages whose
data were extracted. -/
def Answers (r : Root) (d : Place) (place : Option Place) (s s' : RootState) :
    Except ImportFailure BuildCheck → Prop
  | .error _ => (s'.extracted = s.extracted ∨ s'.extracted = []) ∧ ∀ record, s'.workspace.Records place r.dir record →
      s.workspace.Records place r.dir record ∨ record.layers = r.tokens ∧ Extraction.Bare s'.workspace.tree d
  | .ok .unchanged => s.workspace.Forgets place r.dir s'.workspace ∧ s'.extracted = s.extracted ∧
      ∃ record, s.workspace.Records place r.dir record ∧ record.differing r.tokens = []
  | .ok (.invalidated _) => Extraction.Bare s'.workspace.tree d ∧ s'.extracted = [] ∧
      ∀ record, s'.workspace.Records place r.dir record → record.layers = r.tokens

/-- Giving the lock back leaves all of this as it is. -/
theorem released {w : Workspace} {known : List String} {out : Except ImportFailure BuildCheck} (ticket : Nat)
    (h : s.workspace.Checks d place w ∧ w.Checkable r.dir store d place ∧
      r.Answers d place s { workspace := w, extracted := known } out) :
    s.workspace.Checks d place (Lock.release ticket w) ∧ (Lock.release ticket w).Checkable r.dir store d place ∧
      r.Answers d place s { workspace := Lock.release ticket w, extracted := known } out := by
  obtain ⟨hchecks, hcheck, hanswers⟩ := h
  refine ⟨⟨hchecks.process, hchecks.tidies, hchecks.files, hchecks.shifts⟩,
    ⟨hcheck.named, hcheck.lock, ?_, hcheck.files, hcheck.shifts, hcheck.rooted⟩, ?_⟩
  · cases hcheck.store with
    | memory => exact .memory
    | file hnamed hleads htemporary => exact .file hnamed hleads htemporary
  · rcases out with x | _ | changed <;> exact hanswers

/-- After the lock was asked for, the rest can be checked, and no record is new. If it was got, the way to the directory
is open. -/
theorem acquired {out : Except LockFailure Nat} {w : Workspace} (h : s.workspace.Checkable r.dir store d place)
    (hacquire : (Lock.acquire r.dir r.lockTimeout).outcome s.workspace = (out, w)) :
    (s.workspace.Checks d place w ∧ w.Checkable r.dir store d place ∧ s.workspace.Forgets place r.dir w) ∧
      SameLinks s.workspace.tree w.tree ∧ ((∃ ticket, out = .ok ticket) → w.tree.Approaches r.dir d) := by
  obtain ⟨q, hlock⟩ := h.lock
  obtain ⟨hprocess, hrecords, hlocks, hopen⟩ := (Lock.acquire_yields h.named hlock).of_outcome hacquire
  exact ⟨h.locks r.dir (hlock.mono fun _ _ => trivial) hprocess hrecords hlocks, hlocks.sameLinks, hopen⟩

/-- The directory is cleared where removing it is tried, and it is bare if that ends well. -/
theorem removed {out : Except ImportFailure Unit} {w w' : Workspace} (h : w.Checkable r.dir store d place)
    (happroach : w.tree.Approaches r.dir d) (hremove : (Extraction.removeAll r.dir).outcome w = (out, w')) :
    (w.Checks d place w' ∧ w'.Checkable r.dir store d place ∧ w.Forgets place r.dir w') ∧
      (out = .ok () → Extraction.Bare w'.tree d) := by
  obtain ⟨hkeeps, hclears, hbare⟩ :=
    (Extraction.removeAll_yields h.named (fun v hv => hv.1) h.rooted happroach).of_outcome hremove
  exact ⟨h.clears r.dir hkeeps hclears, hbare⟩

/-- Putting the record of the tokens ends well with such a record, or no other record is there than before. What is bare
stays so. -/
theorem put_checks {out : Except StoreError Unit} {w w' : Workspace} (h : w.Checkable r.dir store d place)
    (hput : (store.put r.dir (.new r.tokens w.now)).outcome w = (out, w')) :
    w.Checks d place w' ∧ w'.Checkable r.dir store d place ∧ (Extraction.Bare w.tree d → Extraction.Bare w'.tree d) ∧
      ∀ found, w'.Records place r.dir found → found.layers = r.tokens ∨
        (∃ x, out = .error x) ∧ w.Records place r.dir found := by
  have hstored := (RecordStore.put_yields h.store (fun _ hv => hv.2) (show 1 < UInt32.size by decide)
    r.sorted_tokens).of_outcome hput
  obtain ⟨hchecks, hcheck, hbare⟩ := h.stored hstored
  exact ⟨hchecks, hcheck, hbare, hstored.found⟩

/-- **A check of the build** tidies the directory. It keeps what is extracted only on a record of the same
tokens, and else leaves nothing below the directory before it records the new ones. -/
theorem checkBuild_yields (h : s.workspace.Checkable r.dir store d place)
    (hplain : ∀ record, s.workspace.Records place r.dir record → ∀ target,
      s.workspace.tree.node? d ≠ some (.link target)) :
    (r.checkBuild store).Yields s fun out s' => s.workspace.Checks d place s'.workspace ∧
      s'.workspace.Checkable r.dir store d place ∧ r.Answers d place s s' out := by
  refine (checkBuild_course r store s).mono fun out s' hcourse => ?_
  cases hcourse with
  | locking hacquire =>
    obtain ⟨⟨hchecks, hcheck, hforgets⟩, -⟩ := acquired h hacquire
    exact ⟨hchecks, hcheck, .inl rfl, fun record hfound => .inl (hforgets record hfound)⟩
  | asking hacquire _ =>
    obtain ⟨⟨hchecks, hcheck, hforgets⟩, -⟩ := acquired h hacquire
    exact released _ ⟨hchecks, hcheck, .inl rfl, fun record hfound => .inl (hforgets record hfound)⟩
  | @swept ticket count record w w' hacquire hget hsame hsweep =>
    -- Nothing differs from the record, so it is there and no link is at the directory.
    obtain ⟨⟨hchecks, hcheck, hforgets⟩, hlinks, -⟩ := acquired h hacquire
    obtain ⟨found, rfl, hdiffering⟩ := exists_of_unchanged hsame
    have hfound := hforgets found (((RecordStore.get_yields hcheck.store).of_outcome hget).2 found rfl)
    have hstands : w.tree.Stands (w.Free d place) r.dir d := hcheck.named.stands fun target hlink =>
      hplain found hfound target ((hlinks.link_iff d target).1 hlink)
    obtain ⟨-, hkeeps, hclears⟩ := (Extraction.removeTemporaries_yields hstands).of_outcome hsweep
    obtain ⟨hchecks', hcheck', hforgets'⟩ := hcheck.clears r.dir hkeeps hclears
    exact released _ ⟨hchecks.trans hchecks', hcheck', hforgets.trans hforgets', rfl, found, hfound, hdiffering⟩
  | removing hacquire _ _ hremove =>
    obtain ⟨⟨hchecks, hcheck, hforgets⟩, -, hopen⟩ := acquired h hacquire
    obtain ⟨⟨hchecks', hcheck', hforgets'⟩, -⟩ := removed hcheck (hopen ⟨_, rfl⟩) hremove
    exact released _ ⟨hchecks.trans hchecks', hcheck', .inl rfl, fun found hfound =>
      .inl (hforgets found (hforgets' found hfound))⟩
  | recording hacquire _ _ hremove hput =>
    obtain ⟨⟨hchecks, hcheck, hforgets⟩, -, hopen⟩ := acquired h hacquire
    obtain ⟨⟨hchecks', hcheck', hforgets'⟩, hbare⟩ := removed hcheck (hopen ⟨_, rfl⟩) hremove
    obtain ⟨hchecks'', hcheck'', hbare', hfound⟩ := put_checks hcheck' hput
    refine released _ ⟨(hchecks.trans hchecks').trans hchecks'', hcheck'', .inr rfl, fun found hrecord => ?_⟩
    rcases hfound found hrecord with hlayers | ⟨-, hbefore⟩
    · exact .inr ⟨hlayers, hbare' (hbare rfl)⟩
    · exact .inl (hforgets found (hforgets' found hbefore))
  | recorded hacquire _ _ hremove hput =>
    obtain ⟨⟨hchecks, hcheck, -⟩, -, hopen⟩ := acquired h hacquire
    obtain ⟨⟨hchecks', hcheck', -⟩, hbare⟩ := removed hcheck (hopen ⟨_, rfl⟩) hremove
    obtain ⟨hchecks'', hcheck'', hbare', hfound⟩ := put_checks hcheck' hput
    exact released _ ⟨(hchecks.trans hchecks').trans hchecks'', hcheck'', hbare' (hbare rfl), rfl,
      fun found hrecord => (hfound found hrecord).resolve_right fun hbefore => nomatch hbefore.1⟩

end Root

end LayeredBundles
