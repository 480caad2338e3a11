import LayeredBundles.Proofs.Differences
import LayeredBundles.Proofs.Relocking

/-! # What a store answers

A store is asked for the record of a root, and what it answers depends on its file alone, or on what is kept in memory.
Taking a lock does not change an answer, for all that is new then is directories and an empty file.

* **`RecordStore.answer`** — what a store answers; **`RecordStore.recordsAt`** — the records in a file;
* **`RecordStore.recordsAt_of_grows`** — the records in a tree that has grown;
* **`RecordStore.Rewrites`** — a file was written anew; **`RecordStore.rewrites_of_writeRecords`** says that it was;
* **`RecordStore.renews_of_put`** — what is answered after a record was put, and what became of the files;
* **`Root.exists_of_checkBuild`** — the steps of a check that ends well;
* **`Root.checkBuild_of_answer`** — when a check finds nothing changed. -/

namespace LayeredBundles

open FileTree Fallible

/-! ## (1) Answers -/

namespace RecordStore

variable {w w' : Workspace} {t t' : FileTree} {store : RecordStore} {path root : String} {record : BuildRecord}
  {rs : BuildRecords} {A : Place → Prop} {p q d : Place}

/-- The records that are read at a path. -/
def recordsAt (t : FileTree) (path : String) : Except StoreError BuildRecords :=
  match t.read path with
  | .ok c => .ok (recordsOf c)
  | .error .notFound => .ok []
  | .error e => .error (.io e)

/-- Reading the records of a file changes nothing. -/
theorem outcome_readRecords (path : String) (w : Workspace) :
    (readRecords path).outcome w = (recordsAt w.tree path, w) := by
  unfold readRecords recordsAt Workspace.read
  rw [outcome_bind, outcome_attempt, Workspace.outcome_ask]
  dsimp only
  rcases w.tree.read path with x | c
  · cases x <;> rfl
  · rfl

/-- What a store answers about a root. -/
def answer (store : RecordStore) (w : Workspace) (root : String) : Except StoreError (Option BuildRecord) :=
  ((store.get root).outcome w).1

/-- Asking a store changes nothing. -/
theorem outcome_get (store : RecordStore) (w : Workspace) (root : String) :
    (store.get root).outcome w = (store.answer w root, w) := by
  have hsame : w = ((store.get root).outcome w).2 := (get_finds store w root).1
  exact Prod.ext rfl hsame.symm

/-- What a store was heard to say is its answer. -/
theorem answer_of_get {store : RecordStore} {w w' : Workspace} {root : String}
    {found : Except StoreError (Option BuildRecord)} (h : (store.get root).outcome w = (found, w')) :
    store.answer w root = found := congrArg Prod.fst h

/-- A store in memory answers by its table. -/
theorem answer_memory (w : Workspace) (root : String) :
    RecordStore.memory.answer w root = .ok (Table.find? w.records root) := rfl

/-- A store in a file answers by the records that the file holds. -/
theorem answer_file (path : String) (w : Workspace) (root : String) :
    (RecordStore.file path).answer w root = (recordsAt w.tree path).map fun rs => Table.find? rs root := by
  rw [answer, get, outcome_bind, outcome_readRecords]
  rcases recordsAt w.tree path with x | rs <;> rfl

/-- A store in a file that answers has records to answer by. -/
theorem exists_recordsAt_of_answer {found : Option BuildRecord}
    (h : (RecordStore.file path).answer w root = .ok found) :
    ∃ rs, recordsAt w.tree path = .ok rs ∧ Table.find? rs root = found := by
  rw [answer_file] at h
  rcases hrs : recordsAt w.tree path with x | rs
  · rw [hrs] at h
    cases h
  · rw [hrs] at h
    exact ⟨rs, rfl, Except.ok.inj h⟩

/-- Where the same records are found, all answers are the same. -/
theorem answer_congr (hrecords : w'.records = w.records)
    (h : ∀ path, store = .file path → recordsAt w'.tree path = recordsAt w.tree path) (other : String) :
    store.answer w' other = store.answer w other := by
  cases store with
  | memory => rw [answer_memory, answer_memory, hrecords]
  | file path => rw [answer_file, answer_file, h path rfl]

/-- The records at a path are such that nothing is lost in writing them. -/
theorem exact_recordsAt (h : recordsAt t path = .ok rs) : Exact rs := by
  unfold recordsAt at h
  split at h <;> cases h
  · exact exact_recordsOf _
  · exact .nil

/-- Where there is a record, a file was read. -/
theorem exists_read_of_recordsAt (h : recordsAt t path = .ok rs) (hfound : Table.find? rs root = some record) :
    ∃ c, t.read path = .ok c ∧ recordsOf c = rs := by
  unfold recordsAt at h
  split at h <;> cases h
  · next c hread => exact ⟨c, hread, rfl⟩
  · cases hfound

/-- The records of a file are read from its bytes. -/
theorem recordsAt_of_read {c : ByteArray} (h : t.read path = .ok c) : recordsAt t path = .ok (recordsOf c) := by
  simp [recordsAt, h]

/-! ## (2) Answers that stay -/

/-- **The records in a tree that has grown** were there before, if the path found the file where one stood. -/
theorem recordsAt_of_grows (hgrows : Grows t t') (hnamed : t.Named A path p) (hleads : t.Resolves A p q)
    (hfound : t.read path = .error .notFound → t.node? q = none) (h : recordsAt t' path = .ok rs) :
    recordsAt t path = .ok rs := by
  rcases hgrows.read_eq path with hsame | hnone
  · rwa [recordsAt, hsame] at h
  -- What is read where nothing was found is an empty file.
  have hnil : rs = [] := by
    unfold recordsAt at h
    split at h <;> cases h
    · next c hread =>
      obtain ⟨v, slash, m, hlocate, hfile⟩ := exists_of_read hread
      obtain rfl := (hgrows.sameLinks.named hnamed).eq_of_locate_true (hgrows.sameLinks.resolves hleads) hlocate
      rcases hgrows.node v with hsame | ⟨-, hdir | ⟨m', hempty⟩⟩
      · rw [hsame, hfound hnone] at hfile
        cases hfile
      · cases hdir.symm.trans hfile
      · cases hempty.symm.trans hfile
        rfl
    · rfl
  rw [recordsAt, hnone, hnil]

/-- **An answer with a record** stays when the tree grows. -/
theorem answer_of_grows (hgrows : Grows w.tree w'.tree) (hrecords : w'.records = w.records)
    (h : store.answer w root = .ok (some record)) : store.answer w' root = .ok (some record) := by
  cases store with
  | memory => rwa [answer_memory, hrecords]
  | file path =>
    obtain ⟨rs, hrs, hfound⟩ := exists_recordsAt_of_answer h
    obtain ⟨c, hread, hc⟩ := exists_read_of_recordsAt hrs hfound
    rcases hgrows.read_eq path with hsame | hnone
    · rw [answer_file, recordsAt_of_read (hsame.trans hread), hc, Except.map, hfound]
    · cases hread.symm.trans hnone

/-- **Records that are read twice** are the same, if nothing has changed on the way. -/
theorem recordsAt_unique {n : Nat} {rs' : BuildRecords} (hbase : t'.base = t.base)
    (hsame : ∀ v, A v → t'.node? v = t.node? v) (hway : Leads t A n (t.start path) (DiskPath.steps path) q) (hq : A q)
    (h : recordsAt t path = .ok rs) (h' : recordsAt t' path = .ok rs') : rs' = rs := by
  have hretains : Retains A t t' := ⟨hbase, fun v hv _ => hsame v hv⟩
  have hretains' : Retains A t' t := ⟨hbase.symm, fun v hv _ => (hsame v hv).symm⟩
  have hstart : t'.start path = t.start path := by rw [start, start, hbase]
  have hway' : Leads t' A n (t'.start path) (DiskPath.steps path) q :=
    hstart ▸ hway.congr fun v target hv => by rw [hsame v hv]
  rcases hread : t.read path with x | c
  · rcases hread' : t'.read path with x' | c'
    · cases x <;> cases x' <;> simp_all [recordsAt]
    · cases hread.symm.trans (hretains'.read hway' (hsame q hq).symm hread')
  · rw [recordsAt_of_read hread] at h
    rw [recordsAt_of_read (hretains.read hway (hsame q hq) hread)] at h'
    exact Except.ok.inj (h'.symm.trans h)

/-- The record in an answer has its tokens in order. -/
theorem sorted_of_answer (hrecords : ∀ r ∈ w.records, Table.Sorted r.2.layers)
    (h : store.answer w root = .ok (some record)) : Table.Sorted record.layers := by
  cases store with
  | memory => exact hrecords _ (Table.mem_of_find? (Except.ok.inj h))
  | file path =>
    obtain ⟨rs, hrs, hfound⟩ := exists_recordsAt_of_answer h
    exact (exact_recordsAt hrs).layers _ (Table.mem_of_find? hfound)

/-! ## (3) Files that are written anew -/

/-- `Rewrites A p hidden path rs t t'`: the file at `p` was written anew, under the name of `hidden`, where nothing
stands now. Directories are new on the way of its path only. -/
structure Rewrites (A : Place → Prop) (p hidden : Place) (path : String) (rs : BuildRecords) (t t' : FileTree) :
    Prop where
  /-- Relative paths begin where they began. -/
  base : t'.base = t.base
  /-- The file. -/
  file : ∃ m, t'.node? p = some (.file rs.render.toUTF8 m)
  /-- The file under which it was written. -/
  gone : t'.node? hidden = none
  /-- Neither was a directory. -/
  plain : t.node? p ≠ some .directory ∧ t.node? hidden ≠ some .directory
  /-- Elsewhere directories may be new. -/
  node : ∀ v, v ≠ p → v ≠ hidden → t'.node? v = t.node? v ∨ t.node? v = none ∧ t'.node? v = some .directory
  /-- They are not below a directory that its way does not pass. -/
  outside : ∀ d, d ≠ [] → Outside d (t.start path) → (∀ v, A v → Outside d v) →
    ∀ v, d <+: v → v ≠ p → v ≠ hidden → t'.node? v = t.node? v
  /-- The path is read. -/
  read : t'.read path = .ok rs.render.toUTF8

/-- **What writing records leaves** where it ends well and no link stands under the other name. -/
theorem rewrites_of_writeRecords (hnamed : w.tree.Named A path p)
    (hplain : ∀ target, w.tree.node? (temporaryPlace p w.process) ≠ some (.link target))
    (hA : ∀ v target, A v → w.tree.node? v = some (.link target) → v ≠ p)
    (h : (writeRecords path rs).outcome w = (.ok (), w')) :
    Rewrites A p (temporaryPlace p w.process) path rs w.tree w'.tree := by
  obtain ⟨name, w₁, hname, hcreate, hreplace⟩ := exists_of_writeRecords h
  obtain ⟨t, hwrite, hmove⟩ := exists_of_replaceFile hreplace
  have hprepares := (Workspace.createDirectories_yields w (directory path)).of_outcome hcreate
  have hsame := hprepares.adds.sameLinks
  have hnamed₁ := hsame.named hnamed
  have hbeside := named_temporary hnamed₁ w₁.process hname
  rw [hprepares.keeps.process] at hwrite hmove hbeside
  have hne := temporaryPlace_ne hnamed.ne_root w.process
  have hroot := temporaryPlace_ne_root p w.process
  generalize temporaryPlace p w.process = hidden at *
  have hplain₁ : ∀ target, w₁.tree.node? hidden ≠ some (.link target) := fun target h =>
    hplain target ((hsame.link_iff _ _).1 h)
  -- What is written is a file, and it is what is moved.
  obtain ⟨rfl, hdir, -⟩ := write_stands (hbeside.stands hplain₁) hwrite
  have hsame' := sameLinks_bind_file hroot hplain₁ rs.render.toUTF8 w₁.clock
  obtain ⟨n, hn, -, htree, hpdir, hreaches, hends⟩ :=
    move_named (hsame'.named hnamed₁) (hsame'.named hbeside) hmove
  have hwritten := fun v => node?_bind w₁.tree hroot (.file rs.render.toUTF8 w₁.clock) v
  rw [hwritten, if_pos rfl, Option.some.injEq] at hn
  subst hn
  have hmoved := node?_moved (w₁.tree.bind hidden (.file rs.render.toUTF8 w₁.clock)) (.file rs.render.toUTF8 w₁.clock)
    hroot hnamed.ne_root
  rw [← htree] at hmoved
  have hnode : ∀ v, v ≠ p → v ≠ hidden → w'.tree.node? v = w₁.tree.node? v := fun v hvp hvh => by
    rw [hmoved, if_neg hvp, if_neg hvh, hwritten, if_neg hvh]
  have hfile : w'.tree.node? p = some (.file rs.render.toUTF8 w₁.clock) := by rw [hmoved, if_pos rfl]
  have hbase : w'.tree.base = w.tree.base := by
    rw [htree]
    exact hprepares.adds.base
  rw [hwritten, if_neg hne.symm] at hpdir
  refine ⟨hbase, ⟨_, hfile⟩, ?_, ⟨?_, ?_⟩, fun v hvp hvh => ?_, ?_, ?_⟩
  · rw [hmoved, if_neg hne, if_pos rfl]
  · exact fun hd => hpdir (hprepares.adds.node_of_some hd)
  · exact fun hd => hdir (hprepares.adds.node_of_some hd)
  · rw [hnode v hvp hvh]
    exact (hprepares.adds.node v).imp_right fun hnew => hnew.resolve_right id
  · intro d hd hstarts hout v hv hvp hvh
    obtain ⟨k, xs, q, last, hsteps, -, -, hway⟩ := hnamed.way
    obtain ⟨hfront, habs⟩ := steps_directory hsteps
    have hstart : w.tree.start path = w.tree.start (directory path) := by rw [start, start, habs]
    rw [hstart, ← hfront] at hway
    have hsame := Workspace.createDirectories_outside hout hd
      (fun v hle hv => absurd (hv.trans hle) (hstart ▸ hstarts)) hway
    rw [Yields, hcreate] at hsame
    rw [hnode v hvp hvh]
    exact hsame v hv
  · have hpass : w'.tree.Reaches A path p := by
      rw [htree]
      refine hreaches.moved hroot hnamed.ne_root ((hwritten hidden).trans (if_pos rfl)) ?_ fun target hp hlink => ?_
      · rwa [hwritten, if_neg hne.symm]
      · exact hA p target hp ((hsame.trans hsame').link_iff _ _ |>.1 hlink) rfl
    exact read_of_locate (hpass.locate hends (by simp [hfile]) true) hfile

/-- Where a record was put into a file, the records there were read, and written with it. -/
theorem exists_of_put (h : ((RecordStore.file path).put root record).outcome w = (.ok (), w')) :
    ∃ rs, recordsAt w.tree path = .ok rs ∧
      (writeRecords path (Table.insert root record rs)).outcome w = (.ok (), w') := by
  obtain ⟨rs, w₁, hread, hwrite⟩ := exists_of_outcome_bind_ok h
  rw [outcome_readRecords, Prod.mk.injEq] at hread
  obtain ⟨hread, rfl⟩ := hread
  exact ⟨rs, hread, hwrite⟩

/-- **After a record was put**, it is the answer about its root, and other answers are those of the records before. -/
theorem answer_of_rewrites {hidden : Place} (hrecords : recordsAt w.tree path = .ok rs)
    (hversion : record.version < UInt32.size) (hlayers : Table.Sorted record.layers)
    (hupdated : record.updated.Writable)
    (h : Rewrites A p hidden path (Table.insert root record rs) t w'.tree) (other : String) :
    (RecordStore.file path).answer w' other =
      if other = root then .ok (some record) else (RecordStore.file path).answer w other := by
  rw [answer_file, answer_file, recordsAt_of_read h.read, hrecords,
    recordsOf_render ((exact_recordsAt hrecords).insert root hversion hlayers hupdated)]
  split
  · next heq => rw [heq, Except.map, Table.find?_insert_self]
  · next hne => rw [Except.map, Except.map, Table.find?_insert, if_neg hne]

/-- `store.Renews A place w w'`: the files of a store were written anew, if it has any. -/
structure Renews (store : RecordStore) (A : Place → Prop) (place : Option Place) (w w' : Workspace) : Prop where
  /-- Relative paths begin where they began. -/
  base : w'.tree.base = w.tree.base
  /-- None of them was a directory. -/
  plain : ∀ v, Files place w.process v → w.tree.node? v ≠ some .directory
  /-- What is left of them are files. -/
  file : ∀ v n, Files place w.process v → w'.tree.node? v = some n → n.isFile = true
  /-- Nothing stands where the new file was written. -/
  gone : ∀ p, place = some p → w'.tree.node? (temporaryPlace p w.process) = none
  /-- Elsewhere directories may be new. -/
  node : ∀ v, ¬ Files place w.process v → w'.tree.node? v = w.tree.node? v ∨
    w.tree.node? v = none ∧ w'.tree.node? v = some .directory
  /-- They are not below a directory that its way does not pass. -/
  outside : ∀ d, d ≠ [] → (∀ path, store = .file path → Outside d (w.tree.start path)) → (∀ v, A v → Outside d v) →
    ∀ v, d <+: v → ¬ Files place w.process v → w'.tree.node? v = w.tree.node? v

/-- A file of records that was rewritten is a store that was renewed. -/
theorem Rewrites.renews (h : Rewrites A p (temporaryPlace p w.process) path rs w.tree w'.tree) :
    (RecordStore.file path).Renews A (some p) w w' := by
  have hfiles : ∀ v, ¬ Files (some p) w.process v → v ≠ p ∧ v ≠ temporaryPlace p w.process := fun v hv =>
    ⟨fun heq => hv ⟨p, rfl, .inl heq⟩, fun heq => hv ⟨p, rfl, .inr heq⟩⟩
  refine ⟨h.base, ?_, ?_, ?_, fun v hv => h.node v (hfiles v hv).1 (hfiles v hv).2, fun d hd hstart hA v hv hfile =>
    h.outside d hd (hstart path rfl) hA v hv (hfiles v hfile).1 (hfiles v hfile).2⟩
  · rintro v ⟨_, ⟨⟩, rfl | rfl⟩
    · exact h.plain.1
    · exact h.plain.2
  · rintro v n ⟨_, ⟨⟩, rfl | rfl⟩ hn
    · obtain ⟨m, hfile⟩ := h.file
      cases hfile.symm.trans hn
      rfl
    · cases h.gone.symm.trans hn
  · rintro _ ⟨⟩
    exact h.gone

/-- What can be passed stays, where no link stands at a file of the store. -/
theorem Renews.retains {place : Option Place} {B : Place → Prop} (h : store.Renews A place w w')
    (hB : ∀ v target, B v → Files place w.process v → w.tree.node? v ≠ some (.link target)) :
    Retains B w.tree w'.tree := by
  refine ⟨h.base, fun v hv hpass => ?_⟩
  by_cases hfile : Files place w.process v
  · rcases hpass.leadsOn with hdir | ⟨target, hlink⟩
    · exact absurd hdir (h.plain v hfile)
    · exact absurd hlink (hB v target hv hfile)
  · exact (h.node v hfile).resolve_right fun hnew => not_passable_of_none hnew.1 hpass

/-- **A record that was put** is the answer about its root. Other answers stay, and the files are written anew. -/
theorem renews_of_put {place : Option Place} (hstands : store.StandsAt w A place)
    (hA : ∀ v target, A v → w.tree.node? v = some (.link target) → place ≠ some v)
    (hplain : ∀ p target, place = some p → w.tree.node? (temporaryPlace p w.process) ≠ some (.link target))
    (hversion : record.version < UInt32.size) (hlayers : Table.Sorted record.layers)
    (hupdated : record.updated.Writable)
    (h : (store.put root record).outcome w = (.ok (), w')) : store.Renews A place w w' ∧ ∀ other,
      store.answer w' other = if other = root then .ok (some record) else store.answer w other := by
  cases hstands with
  | memory =>
    cases h
    refine ⟨⟨rfl, ?_, ?_, nofun, fun _ _ => .inl rfl, fun _ _ _ _ _ _ _ => rfl⟩, fun other => ?_⟩
    · rintro v ⟨_, ⟨⟩, -⟩
    · rintro v n ⟨_, ⟨⟩, -⟩
    · rw [answer_memory, answer_memory, Table.find?_insert]
      split <;> rfl
  | file hnamed _ _ =>
    obtain ⟨rs, hrecords, hwrite⟩ := exists_of_put h
    have hrewrites := rewrites_of_writeRecords hnamed (hplain _ · rfl)
      (fun v target hv hlink heq => hA v target hv hlink (congrArg some heq.symm)) hwrite
    exact ⟨hrewrites.renews, answer_of_rewrites hrecords hversion hlayers hupdated hrewrites⟩

end RecordStore

/-! ## (4) Checks by their steps -/

namespace Root

variable {r : Root} {store : RecordStore} {s s' : RootState} {check : BuildCheck}

/-- **The steps of a check that ends well.** -/
theorem exists_of_checkBuild (h : (r.checkBuild store).outcome s = (.ok check, s')) :
    ∃ ticket w w' record, (Lock.acquire r.dir r.lockTimeout).outcome s.workspace = (.ok ticket, w) ∧
      store.answer w r.dir = .ok record ∧ check = compareBuild record r.tokens ∧
      s'.workspace = Lock.release ticket w' ∧
        (check = .unchanged ∧ s'.extracted = s.extracted ∧ w' = w.withTree (Extraction.swept w.tree r.dir) ∨
          check ≠ .unchanged ∧ s'.extracted = [] ∧ ∃ w₁, (Extraction.removeAll r.dir).outcome w = (.ok (), w₁) ∧
            (store.put r.dir (.new r.tokens w₁.now)).outcome w₁ = (.ok (), w')) := by
  cases course_of_outcome h with
  | @swept ticket count record w w' hacquire hget hsame hsweep =>
    cases hsweep
    exact ⟨ticket, w, _, record, hacquire, RecordStore.answer_of_get hget, hsame.symm, rfl, .inl ⟨rfl, rfl, rfl⟩⟩
  | @recorded ticket record changed w w₁ w' hacquire hget hother hremove hput =>
    exact ⟨ticket, w, w', record, hacquire, RecordStore.answer_of_get hget, hother.symm, rfl,
      .inr ⟨by simp, rfl, w₁, hremove, hput⟩⟩

/-- **A check finds nothing changed** if its lock is got and the store answers with a record of the tokens. -/
theorem checkBuild_of_answer {record : BuildRecord} (hlock : ∃ ticket w,
      (Lock.acquire r.dir r.lockTimeout).outcome s.workspace = (.ok ticket, w) ∧ Grows s.workspace.tree w.tree ∧
        w.records = s.workspace.records)
    (hanswer : store.answer s.workspace r.dir = .ok (some record)) (hlayers : record.layers = r.tokens) :
    ((r.checkBuild store).outcome s).1 = .ok .unchanged := by
  obtain ⟨ticket, w, hlock, hgrows, hrecords⟩ := hlock
  have hsorted : Table.Sorted record.layers := hlayers ▸ r.sorted_tokens
  have hunchanged : compareBuild (some record) r.tokens = .unchanged :=
    (compareBuild_iff (fun _ hfound => Option.some.inj hfound ▸ hsorted) r.sorted_tokens).2 ⟨record, rfl, hlayers⟩
  -- The lock is got and the record is of the tokens, so there is one way to go.
  have hgot := RecordStore.answer_of_grows hgrows hrecords hanswer
  rcases hout : (r.checkBuild store).outcome s with ⟨out, s'⟩
  cases course_of_outcome hout with
  | locking hacquire => cases hlock.symm.trans hacquire
  | asking hacquire hget =>
    cases hlock.symm.trans hacquire
    cases hgot.symm.trans (RecordStore.answer_of_get hget)
  | swept => rfl
  | removing hacquire hget hother | recording hacquire hget hother | recorded hacquire hget hother =>
    cases hlock.symm.trans hacquire
    cases hgot.symm.trans (RecordStore.answer_of_get hget)
    cases hunchanged.symm.trans hother

end Root

end LayeredBundles
