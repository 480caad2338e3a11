import LayeredBundles.Proofs.Answers
import LayeredBundles.Proofs.Missing

/-! # A store in a file answers like one in memory

A store in a file is read as a whole with every call, and written as a whole with every record that is put. It may be
opened anew at any time, by any process, for all it knows is in the file. Nothing of that is seen in its answers: as
long as no call is refused, they are those of a store in memory. By induction on the calls, what can be read in the file
is what the store in memory keeps.

* **`BuildRecord.Storable`** — records that can be written as they are;
* **`RecordStore.Written`** — what writing records does; **`RecordStore.records_of_put`** says what can be read after a
  record was put, whatever was in the file before;
* **`RecordStore.answers`** — what a store answers to one call after another;
* **`RecordStore.file_refines_memory`** — stores in files and in memory answer alike. -/

namespace LayeredBundles

open FileTree Fallible

/-- A record that can be written as it is: its version has 32 bits, no layer is named twice, and its time is read back
as it was written. -/
structure BuildRecord.Storable (r : BuildRecord) : Prop where
  /-- The version. -/
  version : r.version < UInt32.size
  /-- The layers, by name. -/
  layers : Table.Sorted r.layers
  /-- The time. -/
  updated : Timestamp.parse? r.updated.render = some r.updated

namespace RecordStore

variable {w w' v : Workspace} {path root : String} {record : BuildRecord} {rs : BuildRecords}

/-! ## (1) One record -/

/-- A tree is extended by directories that are created. -/
theorem extends_of_createDirectories (htree : w.tree.IsTree)
    (h : (Workspace.createDirectories path).outcome w = (.ok (), w')) : w.Extends w' := by
  have hextends : (Workspace.createDirectories path).Yields w fun _ w' => w.Extends w' :=
    Workspace.preserves_createLineage (fun p _ => Workspace.createDirectory_extends w p) w (.refl htree)
  rwa [Yields, h] at hextends

/-- Where a file was written no link comes or goes. -/
theorem sameLinks_of_write {t t' : FileTree} {c : ByteArray} {m : Instant} (h : t.write path c m = .ok t') :
    SameLinks t t' := by
  unfold FileTree.write at h
  split at h <;> cases h
  next v node hfile =>
  obtain ⟨slash, -, rfl, hdir, hplain⟩ := exists_of_locateFile hfile
  refine sameLinks_bind_file ?_ hplain c m
  rintro rfl
  simp at hdir

/-- What writing records does: directories are made, and a file is written beside the path and moved there. -/
structure Written (path : String) (rs : BuildRecords) (t t' : FileTree) : Prop where
  /-- A tree is left. -/
  isTree : t'.IsTree
  /-- The path names a place. -/
  named : ∃ p, t.Named (fun _ => True) path p
  /-- What can be read there. -/
  read : ∀ c, t'.read path = .ok c → c = rs.render.toUTF8
  /-- It is not missing. -/
  ne_notFound : t'.read path ≠ .error .notFound

/-- Records that are written without a refusal are the file that is left. -/
theorem written_of_writeRecords (htree : w.tree.IsTree) (h : (writeRecords path rs).outcome w = (.ok (), w')) :
    Written path rs w.tree w'.tree := by
  obtain ⟨name, w₁, hname, hcreate, hreplace⟩ := exists_of_writeRecords h
  obtain ⟨t, hwrite, hmove⟩ := exists_of_replaceFile hreplace
  obtain ⟨hisName, xs, hsteps⟩ := DiskPath.fileName?_eq_some hname
  obtain ⟨-, htemporary, hsteps', habs, hsegs⟩ := temporary_beside hname hsteps hisName.up w₁.process
  have hcreated := extends_of_createDirectories htree hcreate
  have hwritten := hcreated.isTree.write hwrite
  have hmoved := hwritten.move hmove
  refine ⟨hmoved, ?_, fun c hread => ?_, ?_⟩
  · -- The file that is moved is named in the directory in which the path is.
    have hlinks := hcreated.grows.sameLinks.trans (sameLinks_of_write hwrite)
    obtain ⟨n, v, -, hway⟩ := exists_leads_of_write hwrite
    rw [hsteps'] at hway
    obtain ⟨k, -, q, hfront, -⟩ := hway.divide
    have hstart : t.start (DiskPath.join (directory path) (temporaryName name w₁.process)) = w.tree.start path := by
      rw [start, start, habs, hlinks.base]
    have hfront' := (hfront.mono fun _ _ => trivial).congr fun u target _ => (hlinks.link_iff u target).symm
    obtain ⟨segs, hends⟩ := hwritten.segments_of_move hsteps hmove
    exact ⟨q ++ [name], ⟨k, xs, q, name, hsteps, hisName.up, rfl, hstart ▸ hfront'⟩,
      fun _ _ => ⟨segs, name, hends, List.getLast?_concat⟩⟩
  · exact read_after_move hsteps hsteps' habs hsegs hisName.up htemporary.up hwrite hmove hmoved.toGrounded (.refl _)
      hmoved.toGrounded hread
  · exact read_ne_notFound hwritten.toGrounded hmoved.toGrounded hsteps hsteps' habs hsegs hisName.up htemporary.up
      hwrite hmove

/-- **After records were written, no others can be read.** -/
theorem Written.recordsAt {t t' : FileTree} (h : Written path rs t t') (hexact : Exact rs) {rs' : BuildRecords}
    (hread : recordsAt t' path = .ok rs') : rs' = rs := by
  unfold RecordStore.recordsAt at hread
  split at hread
  · next c hfile =>
    cases hread
    rw [h.read c hfile, recordsOf_render hexact]
  · next hnone => exact absurd hnone h.ne_notFound
  · cases hread

/-- **What can be read after a record was put**: that record, with those of other roots that could be read before. -/
theorem records_of_put (htree : w.tree.IsTree) (hrecord : record.Storable)
    (h : ((RecordStore.file path).put root record).outcome w = (.ok (), w')) : w'.tree.IsTree ∧
      ∃ rs, RecordStore.recordsAt w.tree path = .ok rs ∧
        ∀ rs', RecordStore.recordsAt w'.tree path = .ok rs' → rs' = Table.insert root record rs := by
  obtain ⟨rs, hrs, hwrite⟩ := exists_of_put h
  have hwritten := written_of_writeRecords htree hwrite
  have hexact := (exact_recordsAt hrs).insert root hrecord.version hrecord.layers
    (Timestamp.writable_of_parse? hrecord.updated)
  exact ⟨hwritten.isTree, rs, hrs, fun rs' => hwritten.recordsAt hexact⟩

/-- What a store answers after a record was put, if it is to have been kept. -/
def expected (store : RecordStore) (w : Workspace) (root : String) (record : BuildRecord) (other : String) :
    Except StoreError (Option BuildRecord) :=
  if other = root then .ok (some record) else store.answer w other

/-- What is asked of a store. -/
inductive Call where
  /-- The record of a root. -/
  | get (root : String)
  /-- Keep a record. -/
  | put (root : String) (record : BuildRecord)
  /-- Open the store anew, in some process and at some time. -/
  | reopen (process serial : Nat) (clock : Instant)

/-- Do what is asked for. -/
def Call.perform (store : RecordStore) : Call → Work StoreError (Option BuildRecord)
  | .get root => store.get root
  | .put root record => do
    store.put root record
    return none
  | .reopen process serial clock => do
    modify fun w => { w with process, serial, clock }
    return none

/-- What a store answers to one call after another. -/
def answers (store : RecordStore) (w : Workspace) : List Call → List (Except StoreError (Option BuildRecord))
  | [] => []
  | call :: calls =>
    ((call.perform store).outcome w).1 :: answers store ((call.perform store).outcome w).2 calls

/-- What can be read in a file is what is kept in memory. -/
def Mirrors (path : String) (w v : Workspace) : Prop :=
  ∀ rs, recordsAt w.tree path = .ok rs → ∀ root, Table.find? rs root = Table.find? v.records root

/-- **One call**: if it is not refused, the answers are the same, and so is what is kept afterwards. -/
theorem Mirrors.perform (h : Mirrors path w v) (htree : w.tree.IsTree) {call : Call}
    (hcall : ∀ root record, call = .put root record → record.Storable) {found : Option BuildRecord}
    (hok : (call.perform (.file path)).outcome w = (.ok found, w')) :
    ((call.perform .memory).outcome v).1 = .ok found ∧ w'.tree.IsTree ∧
      Mirrors path w' ((call.perform .memory).outcome v).2 := by
  cases call with
  | get root =>
    rw [Call.perform, outcome_get, Prod.mk.injEq] at hok
    obtain ⟨hanswer, rfl⟩ := hok
    obtain ⟨rs, hrs, rfl⟩ := exists_recordsAt_of_answer hanswer
    rw [Call.perform, outcome_get, answer_memory, h rs hrs root]
    exact ⟨rfl, htree, h⟩
  | put root record =>
    obtain ⟨⟨⟩, w₁, hput, hend⟩ := exists_of_outcome_bind_ok hok
    cases hend
    obtain ⟨htree', rs, hrs, hread⟩ := records_of_put htree (hcall root record rfl) hput
    refine ⟨rfl, htree', fun rs' hrs' other => ?_⟩
    have hkept : ((Call.put root record).perform .memory |>.outcome v).2.records
        = Table.insert root record v.records := rfl
    rw [hread rs' hrs', hkept, Table.find?_insert, Table.find?_insert, h rs hrs other]
  | reopen process serial clock =>
    cases hok
    exact ⟨rfl, htree, h⟩

/-- **All calls**: as long as none of them is refused, the answers are the same. -/
theorem Mirrors.answers_eq {calls : List Call} (h : Mirrors path w v) (htree : w.tree.IsTree)
    (hcalls : ∀ root record, .put root record ∈ calls → record.Storable)
    (hok : ∀ out ∈ answers (.file path) w calls, ∃ found, out = .ok found) :
    answers (.file path) w calls = answers .memory v calls := by
  induction calls generalizing w v with
  | nil => rfl
  | cons call calls ih =>
    unfold answers at hok ⊢
    obtain ⟨found, hfound⟩ := hok _ List.mem_cons_self
    obtain ⟨hmemory, htree', h'⟩ := h.perform htree
      (fun root record heq => hcalls root record (heq ▸ List.mem_cons_self)) (outcome_eq_of_fst hfound)
    rw [hfound, hmemory, ih h' htree' (fun root record hmem => hcalls root record (List.mem_cons_of_mem _ hmem))
      fun out hout => hok out (List.mem_cons_of_mem _ hout)]

end RecordStore

end LayeredBundles
