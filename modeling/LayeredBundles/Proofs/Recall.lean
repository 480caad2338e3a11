import LayeredBundles.Proofs.Convergence
import LayeredBundles.Proofs.Copies
import LayeredBundles.Proofs.Straight
import LayeredBundles.Proofs.Withheld

/-! # What a store recalls

What is recorded of a root stands where the file of the store stands, and is replaced as a whole. Whatever leaves that
file as it is, or fails on the way to replacing it, leaves all records as they were.

* **`FileTree.stands_of_direct`** — a path that steps down only names the place that its text tells;
* **`Workspace.Recalls`** — what is recorded of a root; **`Workspace.Leaves`** — a store is left as it is;
* **`RecordStore.Ready`** — no links are on the way of a store, and what is in its file is found by its path;
* **`RecordStore.recalls_of_answer`** — what such a store answers is what is recorded;
* **`RecordStore.put_leaves`**, **`RecordStore.put_recalls`** — what is recorded after a record was put, or was not;
* **`Root.checkBuild_decides`** — a check goes by what is recorded of its root, and leaves the records of others. -/

namespace LayeredBundles

open FileTree Fallible

/-! ## (1) Paths that tell their places -/

namespace DiskPath

/-- A path that steps down only, at least once. -/
structure IsDirect (path : String) : Prop where
  /-- It steps down only. -/
  names : ∀ s ∈ steps path, s ≠ ".."
  /-- It takes a step. -/
  ne_nil : steps path ≠ []

/-- A path that only steps down leads below where it starts. -/
theorem IsDirect.placeFrom_eq {path : String} (h : IsDirect path) (base : Place) :
    placeFrom base path = startFrom base path ++ steps path := walk_names h.names _

end DiskPath

namespace FileTree

open DiskPath

variable {t t' : FileTree} {A : Place → Prop} {p v : Place} {path : String} {c : ByteArray} {m : Instant}

/-- What is in front of a place is above all that stands in that. -/
theorem isBelow_of_prefix {front : Place} {name : String} (h : v <+: front) : isBelow v (front ++ [name]) = true :=
  isBelow_iff.2 ⟨h.trans (List.prefix_append _ _), fun heq => by
    have hlength := h.length_le
    rw [← heq, List.length_append, List.length_singleton] at hlength
    omega⟩

/-- **What a direct path names** where no links are on its way. -/
theorem stands_of_direct (h : IsDirect path)
    (hplain : ∀ v target, v <+: placeFrom t.base path → t.node? v ≠ some (.link target)) :
    t.Stands (fun v => isBelow v (placeFrom t.base path) = true) path (placeFrom t.base path) := by
  have hnames := h.names
  rw [h.placeFrom_eq] at hplain ⊢
  obtain ⟨front, name, hsteps⟩ := (List.eq_nil_or_concat (steps path)).resolve_left h.ne_nil
  rw [List.concat_eq_append] at hsteps
  rw [hsteps] at hnames
  rw [hsteps, ← List.append_assoc] at hplain ⊢
  refine ⟨⟨0, front, _, name, hsteps, hnames name (by simp), rfl, ?_⟩, fun target =>
    hplain _ target (List.prefix_refl _)⟩
  exact leads_names (fun s hs => hnames s (List.mem_append_left _ hs)) (fun v _ hv _ => isBelow_of_prefix hv)
    fun v _ hv _ target => hplain v target (hv.trans (List.prefix_append _ _))

/-! ## (2) Files that are found -/

/-- `t.Founded front p`: where a file stands at `p`, it stands in a directory, which stands in one, and so on up to
what is in `front`. -/
def Founded (t : FileTree) (front p : Place) : Prop :=
  ∀ c m v, t.node? p = some (.file c m) → front <+: v → v ≠ front → isBelow v p = true → t.node? v = some .directory

/-- Where files stand in directories, every file is founded. -/
theorem Grounded.founded (h : t.Grounded) (front p : Place) : t.Founded front p := fun _ _ v hfile _ _ hv =>
  h.rooted v p _ hv hfile (by simp)

/-- A file is found below its directories, or there is another reason that it is not read. -/
theorem followLinks_ne_notFound {th : Bool} {links : Nat} {segs : List String} {dir : Place}
    (hnames : ∀ s ∈ segs.filter counts, s ≠ "..")
    (hdirs : ∀ v, dir <+: v → v ≠ dir → isBelow v (dir ++ segs.filter counts) = true → t.node? v = some .directory)
    (hfile : t.node? (dir ++ segs.filter counts) = some (.file c m)) :
    t.followLinks th links dir segs ≠ .error .notFound := by
  induction segs generalizing dir with
  | nil =>
    rw [followLinks_nil]
    nofun
  | cons s segs ih =>
    by_cases hcounts : counts s = true
    case neg =>
      rw [List.filter_cons_of_neg hcounts] at hnames hdirs hfile
      rw [followLinks_skip t th links dir segs (by simpa using hcounts)]
      exact ih hnames hdirs hfile
    rw [List.filter_cons_of_pos hcounts] at hnames hdirs hfile
    have hup : s ≠ ".." := hnames s (by simp)
    by_cases hshort : s.utf8ByteSize ≤ maxName
    case neg =>
      rw [followLinks_long t th links dir segs hcounts hup (Nat.not_le.1 hshort)]
      nofun
    have hassoc : dir ++ s :: segs.filter counts = dir ++ [s] ++ segs.filter counts := by simp
    rw [hassoc] at hdirs hfile
    -- The last step is to the file, and the others are to directories.
    by_cases hlast : segs.filter counts = []
    · rw [hlast, List.append_nil] at hfile
      rw [followLinks_file t th links dir segs hcounts hup hshort hfile]
      split <;> nofun
    · have hpre : dir ++ [s] <+: dir ++ [s] ++ segs.filter counts := List.prefix_append _ _
      have hdir : t.node? (dir ++ [s]) = some .directory :=
        hdirs _ (List.prefix_append _ _) (by simp) (isBelow_append hlast _)
      rw [followLinks_directory t th links dir segs hcounts hup hshort hdir]
      refine ih (fun s' hs' => hnames s' (List.mem_cons_of_mem _ hs')) (fun v hv _ hbelow => ?_) hfile
      refine hdirs v ((List.prefix_append _ _).trans hv) (fun heq => ?_) hbelow
      have hlength := hv.length_le
      rw [heq, List.length_append, List.length_singleton] at hlength
      omega

/-- **A file that stands in directories is found** by a path that tells its place. -/
theorem Founded.read_ne_notFound (hdirect : IsDirect path)
    (hplain : ∀ v target, v <+: placeFrom t.base path → t.node? v ≠ some (.link target))
    (h : t.Founded (startFrom t.base path) (placeFrom t.base path))
    (hfile : t.node? (placeFrom t.base path) = some (.file c m)) : t.read path ≠ .error .notFound := by
  intro hread
  have hne : path ≠ "" := fun hempty => hdirect.ne_nil (hempty ▸ steps_empty)
  have hfollow : ∀ links, t.followLinks true links (startFrom t.base path) (segments path) ≠ .error .notFound := by
    intro links
    have hplace : placeFrom t.base path = startFrom t.base path ++ (segments path).filter counts :=
      hdirect.placeFrom_eq _
    rw [hplace] at h hfile
    exact followLinks_ne_notFound hdirect.names (fun v hle hne hv => h c m v hfile hle hne hv) hfile
  unfold read look at hread
  rcases hlocate : t.locate true path with x | ⟨v, slash⟩
  · rw [hlocate] at hread
    cases hread
    rw [locate, if_neg hne] at hlocate
    split at hlocate
    · cases hlocate
    · split at hlocate
      · cases hlocate
      · exact hfollow _ hlocate
  · obtain ⟨rfl, -⟩ := (stands_of_direct hdirect hplain).reaches hlocate
    rw [hlocate] at hread
    simp [hfile] at hread

/-- A way straight down that is open passes all that stands above its end. -/
theorem Leads.passes {n : Nat} {dir q : Place} {xs : List String} (h : Leads t A n dir xs q)
    (hnames : ∀ s ∈ xs, s ≠ "..")
    (hplain : ∀ v target, dir <+: v → v <+: dir ++ xs → t.node? v ≠ some (.link target)) (hv : dir <+: v)
    (hne : v ≠ dir) (hle : v <+: dir ++ xs) : A v := by
  induction h with
  | here => exact absurd (hv.eq_of_length_le (by simpa using hle.length_le)) (Ne.symm hne)
  | up => exact absurd rfl (hnames ".." (by simp))
  | @down n dir q s rest hs hA hlink next ih =>
    have hassoc : dir ++ s :: rest = dir ++ [s] ++ rest := by simp
    rw [hassoc] at hplain hle
    by_cases heq : v = dir ++ [s]
    · exact heq ▸ hA
    -- What is below the first place of the way is below the second one, or that place itself.
    have hstep : dir ++ [s] <+: v := by
      refine List.prefix_of_prefix_length_le (List.prefix_append _ _) hle ?_
      have hlength := hv.length_le
      have hlonger : dir.length ≠ v.length := fun h => hne (hv.eq_of_length h).symm
      simp only [List.length_append, List.length_singleton]
      omega
    exact ih (fun s' hs' => hnames s' (List.mem_cons_of_mem _ hs'))
      (fun v target hv => hplain v target ((List.prefix_append _ _).trans hv)) hstep heq hle
  | @through n dir q s target rest hs hA hlink next =>
    exact absurd hlink (hplain _ target (List.prefix_append _ _) ⟨rest, by simp⟩)

/-- **Where a file was read** by a path that tells its place, it stands in directories. -/
theorem founded_of_read (hdirect : IsDirect path)
    (hplain : ∀ v target, v <+: placeFrom t.base path → t.node? v ≠ some (.link target)) (hread : t.read path = .ok c) :
    t.Founded (startFrom t.base path) (placeFrom t.base path) := by
  obtain ⟨v, slash, m, hlocate, -⟩ := exists_of_read hread
  obtain ⟨-, xs, q, name, hp, hup, hopens⟩ := (stands_of_direct hdirect hplain).reaches hlocate
  obtain ⟨n, -, hway⟩ := hopens.way
  have hnames := hdirect.names
  rw [hopens.steps_eq] at hnames
  have hplace : placeFrom t.base path = startFrom t.base path ++ xs ++ [name] := by
    rw [hdirect.placeFrom_eq, hopens.steps_eq, List.append_assoc]
  rw [hplace] at hplain ⊢
  intro c m v _ hle hne hv
  obtain ⟨hv, hself⟩ := isBelow_iff.1 hv
  have hpass : t.Passable v := by
    refine (hway.passes (fun s hs => hnames s (List.mem_append_left _ hs)) (fun u target _ hu => hplain u target ?_) hle
      hne ?_).2
    · exact hu.trans (List.prefix_append _ _)
    · exact (List.prefix_concat_iff.1 hv).resolve_left fun heq => hself heq.symm
  exact hpass.directory fun target => hplain v target hv

/-! ## (3) What is left as it is -/

/-- `Spares p t t'`: the file at `p` is left as it is, and so are the directories it stands in. No link is new. -/
structure Spares (p : Place) (t t' : FileTree) : Prop where
  /-- Links. -/
  fewer : ∀ v target, t'.node? v = some (.link target) → t.node? v = some (.link target)
  /-- The file; a directory may be new in its place. -/
  node : t'.node? p = t.node? p ∨ t.node? p = none ∧ t'.node? p = some .directory
  /-- The directories. -/
  above : ∀ v, isBelow v p = true → t.node? v = some .directory → t'.node? v = some .directory

/-- To change nothing spares any file. -/
theorem Spares.refl (p : Place) (t : FileTree) : Spares p t t := ⟨fun _ _ => id, .inl rfl, fun _ _ => id⟩

/-- What spares a file twice spares it. -/
theorem Spares.trans {t'' : FileTree} (h : Spares p t t') (h' : Spares p t' t'') : Spares p t t'' := by
  refine ⟨fun v target hlink => h.fewer v target (h'.fewer v target hlink), ?_, fun v hv hdir =>
    h'.above v hv (h.above v hv hdir)⟩
  rcases h'.node with hsame' | ⟨hnone', hdir'⟩
  · rw [hsame']
    exact h.node
  · rcases h.node with hsame | ⟨hnone, hdir⟩
    · exact .inr ⟨hsame ▸ hnone', hdir'⟩
    · cases hdir.symm.trans hnone'

/-- A file that stands where it stood, stands in the directories it stood in. -/
theorem Spares.founded {front : Place} (h : Spares p t t') (hfounded : t.Founded front p) : t'.Founded front p := by
  intro c m v hfile hle hne hv
  rcases h.node with hsame | ⟨-, hdir⟩
  · exact h.above v hv (hfounded c m v (hsame ▸ hfile) hle hne hv)
  · cases hdir.symm.trans hfile

/-- What is touched neither at a place nor above it is spared there. -/
theorem Touches.spares {X : Place → Option Node → Prop} (h : Touches X t t')
    (hfewer : ∀ v target, t'.node? v = some (.link target) → t.node? v = some (.link target))
    (hself : ∀ n, ¬ X p n) (habove : ∀ v n, isBelow v p = true → t.node? v = some .directory → ¬ X v n) :
    Spares p t t' := by
  refine ⟨hfewer, (h.node p).imp_right fun hnew => hnew.resolve_right (hself _), fun v hv hdir => ?_⟩
  rcases h.node v with hsame | ⟨hnone, -⟩ | hX
  · rw [hsame, hdir]
  · cases hdir.symm.trans hnone
  · exact absurd hX (habove v _ hv hdir)

end FileTree

/-! ## (4) Records -/

/-- The place of the file of a store, as its path tells it. -/
def RecordStore.placeFrom? (base : Place) : RecordStore → Option Place
  | .memory => none
  | .file path => some (DiskPath.placeFrom base path)

/-- `w.Recalls place root found`: what is recorded of a root in the store at a place. -/
def Workspace.Recalls (w : Workspace) (place : Option Place) (root : String) (found : Option BuildRecord) : Prop :=
  ∀ record, w.Records place root record ↔ found = some record

/-- `w.Leaves place w'`: the store at a place is left as it is. -/
structure Workspace.Leaves (place : Option Place) (w w' : Workspace) : Prop where
  /-- The records in memory, the process and the time. -/
  keeps : w.Keeps w'
  /-- Relative paths begin where they began. -/
  base : w'.tree.base = w.tree.base
  /-- The file. -/
  spares : ∀ p, place = some p → Spares p w.tree w'.tree

/-- `store.Ready place w`: a store has its place, no link is on the way there, a file there is found by its path, and
the time is one that a record can carry. -/
structure RecordStore.Ready (store : RecordStore) (place : Option Place) (w : Workspace) : Prop where
  /-- The place. -/
  place_eq : store.placeFrom? w.tree.base = place
  /-- The path steps down only. -/
  direct : ∀ path, store = .file path → DiskPath.IsDirect path
  /-- There are no links. -/
  plain : ∀ p v target, place = some p → v <+: p ∨ v = temporaryPlace p w.process →
    w.tree.node? v ≠ some (.link target)
  /-- The file stands in directories. -/
  founded : ∀ path, store = .file path →
    w.tree.Founded (DiskPath.startFrom w.tree.base path) (DiskPath.placeFrom w.tree.base path)
  /-- The time. -/
  clock : w.now.Writable

namespace Workspace

variable {w w' w'' : Workspace} {store : RecordStore} {place : Option Place} {root : String}
  {found found' : Option BuildRecord}

/-- A workspace that stays as it is leaves any store. -/
theorem Leaves.refl (place : Option Place) (w : Workspace) : w.Leaves place w :=
  ⟨.refl w, rfl, fun p _ => .refl p _⟩

/-- What is left twice is left. -/
theorem Leaves.trans (h : w.Leaves place w') (h' : w'.Leaves place w'') : w.Leaves place w'' :=
  ⟨h.keeps.trans h'.keeps, h'.base.trans h.base, fun p hp => (h.spares p hp).trans (h'.spares p hp)⟩

/-- One thing is recorded. -/
theorem Recalls.unique (h : w.Recalls place root found) (h' : w.Recalls place root found') : found = found' :=
  Option.ext fun record => (h record).symm.trans (h' record)

/-- Something is recorded of any root, if only that nothing is. -/
theorem exists_recalls (w : Workspace) (place : Option Place) (root : String) :
    ∃ found, w.Recalls place root found := by
  by_cases h : ∃ record, w.Records place root record
  · obtain ⟨record, hrecord⟩ := h
    refine ⟨some record, fun record' => ⟨fun h' => congrArg some (hrecord.unique h'), ?_⟩⟩
    rintro ⟨⟩
    exact hrecord
  · exact ⟨none, fun record => iff_of_false (fun hrecord => h ⟨record, hrecord⟩) nofun⟩

end Workspace

namespace RecordStore

variable {w w' : Workspace} {store : RecordStore} {root path : String} {record : BuildRecord}
  {place : Option Place} {found : Option BuildRecord} {rs : BuildRecords} {p : Place}

/-- A store that is ready stands where its path is written to lead. -/
theorem Ready.placeFrom_eq (h : (RecordStore.file path).Ready (some p) w) : DiskPath.placeFrom w.tree.base path = p :=
  Option.some.inj h.place_eq

/-- The path of a store that is ready names its place. -/
theorem Ready.stands (h : (RecordStore.file path).Ready (some p) w) :
    w.tree.Stands (fun v => isBelow v p = true) path p := by
  have hplain := h.plain p
  rw [← h.placeFrom_eq] at hplain ⊢
  exact stands_of_direct (h.direct path rfl) fun v target hv => hplain v target (h.placeFrom_eq ▸ rfl) (.inl hv)

/-- A store that is ready stands there. -/
theorem Ready.standsAt (h : store.Ready place w) :
    store.StandsAt w (fun v => ∀ p, place = some p → isBelow v p = true) place := by
  cases store with
  | memory =>
    obtain rfl := h.place_eq
    exact .memory
  | file path =>
    obtain ⟨p, rfl⟩ : ∃ p, place = some p := ⟨_, h.place_eq.symm⟩
    refine .file (h.stands.named.mono fun v hv _ hp => ?_) (.self h.stands.plain)
      (.self fun target => h.plain _ _ target rfl (.inr rfl))
    cases hp
    exact hv

/-- What is recorded stands in the file. -/
theorem Ready.records_iff (h : (RecordStore.file path).Ready (some p) w) : w.Records (some p) root record ↔
    ∃ c m, w.tree.node? p = some (.file c m) ∧ Table.find? (recordsOf c) root = some record := by
  have hself : w.tree.Resolves (fun _ => True) p p := .self h.stands.plain
  refine ⟨?_, fun ⟨c, m, hfile, hfound⟩ => ⟨_, c, m, hself, hfile, hfound⟩⟩
  rintro ⟨q, c, m, hleads, hfile, hfound⟩
  obtain rfl := hleads.unique hself
  exact ⟨c, m, hfile, hfound⟩

/-- A store that is left as it is stays ready, and nothing else is recorded then. -/
theorem Ready.leaves (h : store.Ready place w) (hleaves : w.Leaves place w') : store.Ready place w' where
  place_eq := hleaves.base ▸ h.place_eq
  direct := h.direct
  plain p v target hp hv hlink := by
    rw [hleaves.keeps.process] at hv
    exact h.plain p v target hp hv ((hleaves.spares p hp).fewer v target hlink)
  founded path hpath := by
    rw [hleaves.base]
    subst hpath
    exact (hleaves.spares _ h.place_eq.symm).founded (h.founded path rfl)
  clock := by
    rw [Workspace.now, hleaves.keeps.clock]
    exact h.clock

/-- What a store that is ready recalls, it recalls after it was left alone. -/
theorem Ready.recalls (h : store.Ready place w) (hleaves : w.Leaves place w') (hrecalls : w.Recalls place root found) :
    w'.Recalls place root found := by
  intro record
  rw [← hrecalls record]
  cases store with
  | memory =>
    obtain rfl := h.place_eq
    exact iff_of_eq (congrArg (fun rs => Table.find? rs root = some record) hleaves.keeps.records)
  | file path =>
    obtain ⟨p, rfl⟩ : ∃ p, place = some p := ⟨_, h.place_eq.symm⟩
    rw [h.records_iff, (h.leaves hleaves).records_iff]
    rcases (hleaves.spares _ rfl).node with hsame | ⟨hnone, hdir⟩
    · rw [hsame]
    · simp [hnone, hdir]

/-- **What a store answers is what is recorded.** -/
theorem recalls_of_answer (h : store.Ready place w) (hanswer : store.answer w root = .ok found) :
    w.Recalls place root found := by
  intro record
  cases store with
  | memory =>
    obtain rfl := h.place_eq
    rw [answer_memory, Except.ok.injEq] at hanswer
    rw [← hanswer]
    rfl
  | file path =>
    obtain ⟨p, rfl⟩ : ∃ p, place = some p := ⟨_, h.place_eq.symm⟩
    obtain ⟨rs, hrs, rfl⟩ := exists_recordsAt_of_answer hanswer
    rw [h.records_iff]
    unfold recordsAt at hrs
    split at hrs <;> cases hrs
    · next c hread =>
      obtain ⟨v, slash, m, hlocate, hfile⟩ := exists_of_read hread
      obtain ⟨rfl, -⟩ := h.stands.reaches hlocate
      rw [hfile]
      refine ⟨?_, fun hfound => ⟨c, m, rfl, hfound⟩⟩
      rintro ⟨_, _, ⟨⟩, hfound⟩
      exact hfound
    · next hread =>
      refine iff_of_false ?_ fun hfound => by cases hfound
      rintro ⟨c, m, hfile, -⟩
      -- A file that stands at the place is not missed by the read.
      refine (h.founded path rfl).read_ne_notFound (h.direct path rfl) (fun v target hv => ?_) (h.placeFrom_eq ▸ hfile)
        hread
      exact h.plain p v target rfl (.inl (h.placeFrom_eq ▸ hv))

/-! ## (5) Putting a record -/

/-- What else there is, writing records keeps. -/
theorem writeRecords_keeps (w₀ : Workspace) (path : String) (rs : BuildRecords) :
    (writeRecords path rs).Preserves w₀.Keeps := by
  unfold writeRecords
  refine ((Workspace.createDirectories_keeps w₀ _).failingAs _).bind fun _ => ?_
  dsimp only
  split
  · exact preserves_throw _
  · refine preserves_get.bind fun w => ?_
    have hreplace (temporary : String) (c : ByteArray) : (replaceFile temporary path c).Preserves w₀.Keeps :=
      (Workspace.write_keeps w₀ temporary c).bind fun _ => Workspace.move_keeps w₀ temporary path
    refine (hreplace _ _).attempt.bind fun out => ?_
    split
    · exact preserves_pure _
    · exact (Workspace.discard_keeps w₀ _).bind fun _ => preserves_throw _

/-- A record that is withheld leaves the store as it is. -/
theorem Withholds.leaves (hwithholds : store.Withholds A place w w') (h : store.Ready place w) : w.Leaves place w' := by
  refine ⟨hwithholds.keeps, hwithholds.touches.base, fun p hp => ?_⟩
  cases store with
  | memory => exact absurd (h.place_eq.trans hp) nofun
  | file path =>
    subst hp
    refine hwithholds.touches.spares (fun v target hlink => ?_) ?_ ?_
    · rcases hwithholds.touches.node v with hsame | ⟨-, hdir⟩ | ⟨hnone, -⟩
      · exact hsame ▸ hlink
      · cases hdir.symm.trans hlink
      · cases hnone.symm.trans hlink
    · rintro n ⟨-, _, ⟨⟩, heq⟩
      exact temporaryPlace_ne h.stands.ne_root _ heq.symm
    · -- What is beside the file is not above it.
      rintro v n hv - ⟨-, _, ⟨⟩, rfl⟩
      obtain ⟨hle, hne⟩ := isBelow_iff.1 hv
      have hlength : 0 < p.length := List.length_pos_iff.2 h.stands.ne_root
      exact hne (hle.eq_of_length (by simp [temporaryPlace]; omega)).symm

/-- **Putting a record that fails** leaves the store as it is. -/
theorem put_leaves (h : store.Ready place w) (root : String) (record : BuildRecord) :
    (store.put root record).Yields w fun out w' => (∃ x, out = .error x) → w.Leaves place w' :=
  (put_withholds h.standsAt (fun p target hp => h.plain p _ target hp (.inr rfl)) root record).mono
    fun _ _ hwithholds herror => (hwithholds herror).leaves h

/-- **A record that was put** is what is recorded of its root. Nothing else is recorded of others. -/
theorem put_recalls (h : store.Ready place w) (hversion : record.version < UInt32.size)
    (hlayers : Table.Sorted record.layers) (hupdated : record.updated.Writable)
    (hput : (store.put root record).outcome w = (.ok (), w')) :
    store.Ready place w' ∧ w'.Recalls place root (some record) ∧
      ∀ other found, other ≠ root → w.Recalls place other found → w'.Recalls place other found := by
  cases store with
  | memory =>
    obtain rfl := h.place_eq
    cases hput
    refine ⟨⟨rfl, h.direct, h.plain, h.founded, h.clock⟩, fun record' => ?_, fun other found hne hfound record' => ?_⟩
    · exact iff_of_eq (congrArg (· = some record') (Table.find?_insert_self ..))
    · rw [← hfound record']
      exact iff_of_eq (congrArg (· = some record') ((Table.find?_insert ..).trans (if_neg hne)))
  | file path =>
    obtain ⟨p, rfl⟩ : ∃ p, place = some p := ⟨_, h.place_eq.symm⟩
    have hplain : ∀ target, w.tree.node? (temporaryPlace p w.process) ≠ some (.link target) :=
      fun target => h.plain _ _ target rfl (.inr rfl)
    obtain ⟨rs, hrs, hwrite⟩ := exists_of_put hput
    obtain ⟨hrenews, hanswers⟩ := renews_of_put (.file h.stands.named (.self h.stands.plain) (.self hplain))
      (fun v target hv hlink => absurd hlink (h.plain _ v target rfl (.inl (isBelow_iff.1 hv).1)))
      (fun p' target hp => by cases hp; exact hplain target) hversion hlayers hupdated hput
    have hkeeps := (writeRecords_keeps w path (Table.insert root record rs) w (.refl w)).of_outcome hwrite
    -- The files of the store are files now, or gone, and no link is new elsewhere.
    have hplain' : ∀ v target, v <+: p ∨ v = temporaryPlace p w.process → w'.tree.node? v ≠ some (.link target) := by
      intro v target hv hlink
      by_cases hfile : Files (some p) w.process v
      · cases hrenews.file v _ hfile hlink
      · rcases hrenews.node v hfile with hsame | ⟨-, hdir⟩
        · exact h.plain _ v target rfl hv (hsame ▸ hlink)
        · cases hdir.symm.trans hlink
    have hself := hanswers root
    rw [if_pos rfl] at hself
    obtain ⟨rs', hrs', hfound⟩ := exists_recordsAt_of_answer hself
    obtain ⟨c, hread, -⟩ := exists_read_of_recordsAt hrs' hfound
    have hplace : DiskPath.placeFrom w'.tree.base path = p := hrenews.base ▸ h.placeFrom_eq
    have h' : (RecordStore.file path).Ready (some p) w' := by
      refine ⟨congrArg some hplace, h.direct, ?_, ?_, ?_⟩
      · rintro _ v target ⟨⟩ hv
        rw [hkeeps.process] at hv
        exact hplain' v target hv
      · rintro _ ⟨⟩
        exact founded_of_read (h.direct path rfl) (fun v target hv => hplain' v target (.inl (hplace ▸ hv))) hread
      · rw [Workspace.now, hkeeps.clock]
        exact h.clock
    refine ⟨h', recalls_of_answer h' hself, fun other found hne hrecalls => ?_⟩
    have hbefore : (RecordStore.file path).answer w other = .ok (Table.find? rs other) := by
      rw [answer_file, hrs]
      rfl
    rw [(recalls_of_answer h hbefore).unique hrecalls] at hbefore
    exact recalls_of_answer h' ((hanswers other).trans ((if_neg hne).trans hbefore))

end RecordStore

/-! ## (6) Checks -/

namespace Root

variable {r : Root} {store : RecordStore} {d : Place} {s : RootState}

/-- What a check does by what is recorded, and to it. One that fails leaves the store as it is. One that ends well
compares the tokens with what is recorded of its root, and the next one would find nothing changed. What is recorded of
other roots stays. -/
def Decides (r : Root) (place : Option Place) (w w' : Workspace) : Except ImportFailure BuildCheck → Prop
  | .error _ => w.Leaves place w'
  | .ok check => (∀ other found, other ≠ r.dir →
        w.Recalls place other found → w'.Recalls place other found) ∧
      ∃ found found', w.Recalls place r.dir found ∧ check = compareBuild found r.tokens ∧
        w'.Recalls place r.dir found' ∧ compareBuild found' r.tokens = .unchanged

/-- Giving the lock back leaves all of this as it is. -/
theorem released_decides {w w' : Workspace} {out : Except ImportFailure BuildCheck} (ticket : Nat)
    (h : r.Decides place w w' out ∧ store.Ready place w') :
    r.Decides place w (Lock.release ticket w') out ∧ store.Ready place (Lock.release ticket w') := by
  obtain ⟨hdecides, hready⟩ := h
  refine ⟨?_, hready.place_eq, hready.direct, hready.plain, hready.founded, hready.clock⟩
  rcases out with x | check
  · exact ⟨⟨hdecides.keeps.records, hdecides.keeps.process, hdecides.keeps.clock, hdecides.keeps.serial⟩,
      hdecides.base, hdecides.spares⟩
  · exact hdecides

/-- What is recorded where a check has got its lock and its record is what is recorded before. -/
theorem recalls_of_get {w : Workspace} {found : Option BuildRecord} (hready : store.Ready place s.workspace)
    (hleaves : s.workspace.Leaves place w) (hget : (store.get r.dir).outcome w = (.ok found, w)) :
    s.workspace.Recalls place r.dir found := by
  have hafter := RecordStore.recalls_of_answer (hready.leaves hleaves) (RecordStore.answer_of_get hget)
  obtain ⟨before, hbefore⟩ := Workspace.exists_recalls s.workspace place r.dir
  rwa [hafter.unique (hready.recalls hleaves hbefore)]

/-- **A check goes by what is recorded of its root**, and the records of others stay. This is so if the store is left
as it is by taking the lock and by removing files; then `I` says that it was left so far. -/
theorem checkBuild_decides {I : Workspace → Prop} (hready : store.Ready place s.workspace) (hI : I s.workspace)
    (hleaves : ∀ w, I w → s.workspace.Leaves place w) (hacquire : (Lock.acquire r.dir r.lockTimeout).Preserves I)
    (hsweep : (Extraction.removeTemporaries r.dir).Preserves I) (hremove : (Extraction.removeAll r.dir).Preserves I) :
    (r.checkBuild store).Yields s fun out s' =>
      r.Decides place s.workspace s'.workspace out ∧ store.Ready place s'.workspace := by
  -- While the invariant lasts, the store answers as it did.
  have hstopped : ∀ w, I w → s.workspace.Leaves place w ∧ store.Ready place w := fun w hw =>
    ⟨hleaves w hw, hready.leaves (hleaves w hw)⟩
  refine (checkBuild_course r store s).mono fun out s' hcourse => ?_
  cases hcourse with
  | locking hacquired => exact hstopped _ ((hacquire _ hI).of_outcome hacquired)
  | asking hacquired _ => exact released_decides _ (hstopped _ ((hacquire _ hI).of_outcome hacquired))
  | @swept ticket count found w w' hacquired hget hsame hswept =>
    have hw : I w := (hacquire _ hI).of_outcome hacquired
    have hbefore := recalls_of_get hready (hleaves w hw) hget
    obtain ⟨hleft, hready'⟩ := hstopped w' ((hsweep w hw).of_outcome hswept)
    exact released_decides _ ⟨⟨fun other found _ => hready.recalls hleft, found, found, hbefore, hsame.symm,
      hready.recalls hleft hbefore, hsame⟩, hready'⟩
  | @removing ticket found changed x w w' hacquired _ _ hremoved =>
    have hw : I w := (hacquire _ hI).of_outcome hacquired
    exact released_decides _ (hstopped w' ((hremove w hw).of_outcome hremoved))
  | @recording ticket found changed e w w₁ w' hacquired _ _ hremoved hput =>
    have hw : I w := (hacquire _ hI).of_outcome hacquired
    obtain ⟨hleft, hready₁⟩ := hstopped w₁ ((hremove w hw).of_outcome hremoved)
    have hfails := (RecordStore.put_leaves hready₁ r.dir (.new r.tokens w₁.now)).of_outcome hput ⟨e, rfl⟩
    exact released_decides _ ⟨hleft.trans hfails, hready₁.leaves hfails⟩
  | @recorded ticket found changed w w₁ w' hacquired hget hother hremoved hput =>
    have hw : I w := (hacquire _ hI).of_outcome hacquired
    have hbefore := recalls_of_get hready (hleaves w hw) hget
    obtain ⟨hleft, hready₁⟩ := hstopped w₁ ((hremove w hw).of_outcome hremoved)
    obtain ⟨hready', hself, hothers⟩ := RecordStore.put_recalls hready₁ (show 1 < UInt32.size by decide) r.sorted_tokens
      hready₁.clock hput
    refine released_decides _ ⟨⟨fun other found hne hrecalls => hothers other found hne (hready.recalls hleft hrecalls),
      found, _, hbefore, hother.symm, hself, ?_⟩, hready'⟩
    exact (compareBuild_iff (by rintro _ ⟨⟩; exact r.sorted_tokens) r.sorted_tokens).2 ⟨_, rfl, rfl⟩

end Root

end LayeredBundles
