import LayeredBundles.Proofs.Answers

/-! # Records that are not put

A record is put by writing all records to a file beside that of the store, which then takes its place. Wherever that
fails, the file of the store is what it was, and what was written beside it is taken away again. Directories on the way
of the path stay.

* **`RecordStore.Withholds`** — what putting a record leaves that fails;
* **`RecordStore.Withholds.discard_written`** — what was written is taken away;
* **`RecordStore.put_withholds`** — putting a record withholds it, or ends well. -/

namespace LayeredBundles

open FileTree Fallible

namespace RecordStore

variable {w w' w₁ : Workspace} {A : Place → Prop} {path name temporary : String} {p : Place} {store : RecordStore}
  {place : Option Place}

/-! ## (1) What is left -/

/-- The file under which a store is written is named by the end of its path. -/
theorem ends_temporary {t : FileTree} (h : t.Named A path p) (process : Nat)
    (hname : DiskPath.fileName? path = some name) :
    Ends (DiskPath.join (directory path) (temporaryName name process)) (temporaryPlace p process) := by
  obtain ⟨n, xs, q, last, hsteps, hup, rfl, -⟩ := h.way
  obtain ⟨rfl, -, -, -, segs, hsegs⟩ := temporary_beside hname hsteps hup process
  exact ⟨segs, _, hsegs, by simp [temporaryPlace]⟩

/-- `Emptied place process v n`: under the name of a new store there is nothing. -/
def Emptied (place : Option Place) (process : Nat) (v : Place) (n : Option Node) : Prop :=
  n = none ∧ ∃ p, place = some p ∧ v = temporaryPlace p process

/-- `store.Withholds A place w w'`: what putting a record leaves that fails. Directories may be new on the way of the
path, and the file under which a new store is written may be gone. -/
structure Withholds (store : RecordStore) (A : Place → Prop) (place : Option Place) (w w' : Workspace) : Prop where
  /-- The records in memory, the process and the time. -/
  keeps : w.Keeps w'
  /-- What is changed. -/
  touches : Touches (Emptied place w.process) w.tree w'.tree
  /-- No directory is gone. -/
  directory : ∀ v, w.tree.node? v = some .directory → w'.tree.node? v = some .directory
  /-- Nothing is new in a directory that the way does not pass. -/
  outside : ∀ d, d ≠ [] → (∀ path, store = .file path → Outside d (w.tree.start path)) → (∀ v, A v → Outside d v) →
    ∀ v, d <+: v → w'.tree.node? v = w.tree.node? v ∨ w'.tree.node? v = none

/-- A workspace that stays as it is has nothing withheld. -/
theorem Withholds.refl (store : RecordStore) (A : Place → Prop) (place : Option Place) (w : Workspace) :
    store.Withholds A place w w := ⟨.refl w, .refl _ _, fun _ => id, fun _ _ _ _ _ _ => .inl rfl⟩

/-- Creating the directories of a store. -/
theorem createDirectories_withholds (hnamed : w.tree.Named A path p) :
    (Workspace.createDirectories (directory path)).Yields w fun _ w' =>
      w.Prepares w' ∧ (RecordStore.file path).Withholds A (some p) w w' := by
  obtain ⟨n, xs, q, last, hsteps, -, -, hway⟩ := hnamed.way
  obtain ⟨hfront, habs⟩ := steps_directory hsteps
  have hstart : w.tree.start path = w.tree.start (directory path) := by rw [start, start, habs]
  rw [hstart, ← hfront] at hway
  have hprepares := Workspace.createDirectories_yields w (directory path)
  refine ⟨hprepares, hprepares.keeps, hprepares.adds.mono fun _ _ => False.elim,
    fun _ hv => hprepares.adds.node_of_some hv, fun d hd hstarts hA v hv => .inl ?_⟩
  exact Workspace.createDirectories_outside hA hd (fun v hle hv => absurd (hv.trans hle) (hstart ▸ hstarts path rfl))
    hway v hv

/-- Taking away the file under which a new store is written. -/
theorem Withholds.unbind (h : store.Withholds A (some p) w w₁)
    (hdir : w₁.tree.node? (temporaryPlace p w.process) ≠ some .directory) (hkeeps : w₁.Keeps w')
    (hnode : ∀ v, w'.tree.node? v = if v = temporaryPlace p w.process then none else w₁.tree.node? v)
    (hbase : w'.tree.base = w₁.tree.base) : store.Withholds A (some p) w w' := by
  refine ⟨h.keeps.trans hkeeps, ⟨hbase.trans h.touches.base, fun v => ?_⟩, fun v hv => ?_,
    fun d hd hstart hA v hv => ?_⟩
  · rw [hnode]
    split
    · next hv => exact .inr (.inr ⟨rfl, p, rfl, hv⟩)
    · exact h.touches.node v
  · have hv₁ := h.directory v hv
    rw [hnode, if_neg, hv₁]
    rintro rfl
    exact hdir hv₁
  · rw [hnode]
    split
    · exact .inr rfl
    · exact h.outside d hd hstart hA v hv

/-! ## (2) Failing to put a record -/

/-- What cannot be written is taken away, if it stood there. -/
theorem Withholds.discard (h : store.Withholds A (some p) w w₁)
    (hstands : w₁.tree.Stands A temporary (temporaryPlace p w.process)) (x : StoreError) :
    (do
      Workspace.discard temporary
      throw x : Work StoreError Unit).Yields w₁ fun _ w' => store.Withholds A (some p) w w' := by
  refine Yields.bind (discard_named hstands.named) ?_ (by simp)
  rintro _ w₂ ⟨-, hkeeps, hcases⟩
  change store.Withholds A (some p) w w₂
  rcases hcases with hsame | ⟨hunbind, hdir⟩
  · exact ⟨h.keeps.trans hkeeps, hsame ▸ h.touches, hsame ▸ h.directory, hsame ▸ h.outside⟩
  · exact h.unbind hdir hkeeps (hunbind ▸ node?_unbind _ (temporaryPlace_ne_root p _)) (by rw [hunbind]; rfl)

/-- What was written is found again, for it is not on its own way, and taken away. -/
theorem Withholds.discard_written {t : FileTree} {c : ByteArray} {m : Instant}
    (h : store.Withholds A (some p) w w₁) (hstands : w₁.tree.Stands A temporary (temporaryPlace p w.process))
    (hends : Ends temporary (temporaryPlace p w.process)) (hwrite : w₁.tree.write temporary c m = .ok t)
    (x : StoreError) :
    (do
      Workspace.discard temporary
      throw x : Work StoreError Unit).Yields (w₁.withTree t) fun _ w' => store.Withholds A (some p) w w' := by
  have hroot := temporaryPlace_ne_root p w.process
  obtain ⟨rfl, hdir, hreaches⟩ := write_stands hstands hwrite
  have hwritten := fun v => node?_bind w₁.tree hroot (.file c m) v
  have hself := (hwritten (temporaryPlace p w.process)).trans (if_pos rfl)
  have hlinks := sameLinks_bind_file hroot hstands.plain c m
  have hplain := fun target hlink => hstands.plain target ((hlinks.link_iff _ target).1 hlink)
  have hopens := hreaches.congr hlinks.base fun v _ hpass => (hwritten v).trans <| if_neg <| by
    rintro rfl
    rcases hpass.leadsOn with hd | ⟨target, hlink⟩
    · exact hdir hd
    · exact hstands.plain target hlink
  refine Yields.bind (Workspace.discard_yields (hstands.congr hlinks.base
    (fun v target _ => hlinks.link_iff v target) hplain) hopens hends hself) ?_ (by simp)
  rintro _ w₂ ⟨-, rfl⟩
  refine h.unbind hdir ((Workspace.keeps_withTree _ _).trans (Workspace.keeps_withTree _ _)) (fun v => ?_) rfl
  refine (node?_unbind _ hroot v).trans ?_
  rw [Workspace.tree_withTree, hwritten]
  split <;> rfl

/-- **Writing records that fails** leaves the file of a store, and nothing under the name of a new one. -/
theorem writeRecords_withholds (hnamed : w.tree.Named A path p)
    (hplain : ∀ target, w.tree.node? (temporaryPlace p w.process) ≠ some (.link target)) (rs : BuildRecords) :
    (writeRecords path rs).Yields w fun out w' =>
      (∃ x, out = .error x) → (RecordStore.file path).Withholds A (some p) w w' := by
  unfold writeRecords
  refine Yields.bind (P := fun _ w₁ => w.Prepares w₁ ∧ (RecordStore.file path).Withholds A (some p) w w₁) ?_ ?_
    fun _ _ h _ => h.2
  · rw [yields_failingAs]
    exact createDirectories_withholds hnamed
  rintro _ w₁ ⟨hprepares, hwithholds⟩
  dsimp only
  split
  · exact fun _ => hwithholds
  next name hname =>
  have hlinks := hprepares.adds.sameLinks
  have hstands := (named_temporary (hlinks.named hnamed) w.process hname).stands fun target hlink =>
    hplain target ((hlinks.link_iff _ target).1 hlink)
  have hends := ends_temporary hnamed w.process hname
  rw [yields_get_bind, hprepares.keeps.process, yields_attempt_bind, replaceFile]
  generalize DiskPath.join (directory path) (temporaryName name w.process) = temporary at hstands hends ⊢
  -- A new file that cannot be written or moved is taken away again.
  rcases hwrite : w₁.tree.write temporary rs.render.toUTF8 w₁.clock with x | t
  · rw [outcome_bind_error ((Workspace.outcome_write _ _ _).trans (by rw [hwrite]))]
    exact (hwithholds.discard hstands _).mono fun _ _ h _ => h
  rw [outcome_bind_ok ((Workspace.outcome_write _ _ _).trans (by rw [hwrite]))]
  obtain ⟨held, hmove⟩ := Workspace.outcome_move temporary path (w₁.withTree t)
  rw [hmove, Workspace.tree_withTree]
  rcases t.move temporary path with x | t'
  · exact (hwithholds.discard_written hstands hends hwrite _).mono fun _ _ h _ => h
  · rintro ⟨x, ⟨⟩⟩

/-- **Putting a record that fails** leaves all records. -/
theorem put_withholds (h : store.StandsAt w A place)
    (hplain : ∀ p target, place = some p → w.tree.node? (temporaryPlace p w.process) ≠ some (.link target))
    (root : String) (record : BuildRecord) : (store.put root record).Yields w fun out w' =>
      (∃ x, out = .error x) → store.Withholds A place w w' := by
  cases h with
  | memory =>
    rintro ⟨x, ⟨⟩⟩
  | file hnamed _ _ =>
    refine Yields.bind (P := fun _ w₁ => w = w₁) ?_ ?_ ?_
    · rw [Yields, outcome_readRecords]
    · rintro rs _ rfl
      exact writeRecords_withholds hnamed (hplain _ · rfl) _
    · rintro x _ rfl
      exact fun _ => .refl _ _ _ _

end RecordStore

end LayeredBundles
