import LayeredBundles.Proofs.Answers

/-! # A check of the build settles

A check that ends well has left a record of the tokens it saw, so that another one right after it finds nothing
changed. For that nothing may be in the way of the second one: its lock has to be got again, and the record has to be
read where it was written, though the directory is gone that stood between the two.

* **`Workspace.Separate`** — the directory, its lock and the store are apart from each other;
* **`Extraction.gone_of_removeAll`** — a directory that was removed is gone;
* **`Workspace.Settles`** — what a check leaves outside its directory;
* **`Root.checkBuild_converges`** — what a check that ends well has found, what it leaves, and what the next one finds;
  **`Root.intertwined_diverges`** — where the path of the store passes the directory, it is otherwise. -/

namespace LayeredBundles

open FileTree Fallible

/-! ## (1) Directories that are gone -/

namespace FileTree

variable {t : FileTree} {A : Place → Prop} {d p : Place} {path : String}

/-- What something stands below is a directory. -/
theorem Grounded.above (h : t.Grounded) {v : Place} {n : Node} (hv : isBelow d v = true) (hn : t.node? v = some n) :
    t.node? d = some .directory := by
  have habove : ∀ rest s n, t.node? (d ++ rest ++ [s]) = some n → t.node? d = some .directory := by
    intro rest
    induction rest using List.reverseRecOn with
    | nil =>
      intro s n hn
      simpa using h.parent _ _ hn
    | append_singleton rest s' ih =>
      intro s n hn
      refine ih s' .directory ?_
      have hparent := h.parent _ _ hn
      rwa [List.dropLast_concat, ← List.append_assoc] at hparent
  obtain ⟨⟨rest, rfl⟩, hne⟩ := isBelow_iff.1 hv
  obtain rfl | ⟨rest, s, rfl⟩ := List.eq_nil_or_concat rest
  · exact absurd (List.append_nil d) hne
  · rw [List.concat_eq_append, ← List.append_assoc] at hn
    exact habove rest s n hn

/-- Where files stand in directories, every directory is rooted. -/
theorem Grounded.rooted (h : t.Grounded) (d : Place) : t.Rooted d := fun _ _ hv hn _ => h.above hv hn

/-- Nothing stands under a path that names an empty place. -/
theorem Named.has_eq_false (h : t.Named A path p) (hnone : t.node? p = none) : t.has path = false := by
  have hself : t.Resolves A p p := .self (by simp [hnone])
  unfold has look
  rcases hlocate : t.locate true path with x | ⟨v, slash⟩
  · rfl
  · obtain rfl := h.eq_of_locate_true hself hlocate
    simp [hnone, Except.isOk, Except.toBool]

/-- A slash at the end does not change where a path approaches. -/
theorem Approaches.bare (h : t.Approaches path p) : t.Approaches (bare path) p := by
  obtain ⟨n, hn, xs, q, name, hsteps, hup, hp, hway⟩ := h
  have hstart : t.start (FileTree.bare path) = t.start path := by rw [start, start, DiskPath.isAbsolute_bare]
  exact ⟨n, hn, xs, q, name, (DiskPath.steps_bare path).trans hsteps, hup, hp, hstart ▸ hway⟩

/-- What is reached is approached. -/
theorem Reaches.approaches (h : t.Reaches A path p) : t.Approaches path p := by
  obtain ⟨xs, q, name, hp, hup, hopens⟩ := h
  obtain ⟨n, hn, hway⟩ := hopens.way
  exact ⟨n, hn, xs, q, name, hopens.steps_eq, hup, hp, hway.mono fun _ hv => hv.2⟩

/-- If there was no directory to remove, nothing stands under the path. -/
theorem look_of_removeDirectory (h : t.removeDirectory path = .error .notFound) :
    t.look false (FileTree.bare path) = .error .notFound := by
  unfold removeDirectory at h
  unfold look
  split at h
  · cases h
    rfl
  split at h
  · next hnone => rw [hnone]
  · split at h
    · cases h
    · cases h
    · split at h
      · cases h
      · split at h <;> cases h
  · cases h

/-- If a directory is not found at the end of a way that is open, nothing stands there. -/
theorem Reaches.node?_eq_none (h : t.Reaches A path p) (hplain : ∀ target, t.node? p ≠ some (.link target))
    (hremove : t.removeDirectory path = .error .notFound) : t.node? p = none :=
  h.approaches.bare.node?_eq_none (fun target hlink => absurd hlink (hplain target)) (look_of_removeDirectory hremove)

/-- Two trees have the same links in either order. -/
theorem SameLinks.symm {t' : FileTree} (h : SameLinks t t') : SameLinks t' t :=
  ⟨h.base.symm, fun v target => (h.link_iff v target).symm⟩

end FileTree

/-- **A directory that was removed is gone**, and so is all that it held. -/
theorem Extraction.gone_of_removeAll {w w' : Workspace} {A : Place → Prop} {dir : String} {d : Place}
    (htree : w.tree.Grounded) (hnamed : w.tree.Named A dir d) (hA : ∀ v, A v → Outside d v)
    (happroach : w.tree.Approaches dir d) (h : (removeAll dir).outcome w = (.ok (), w')) :
    ∀ v, d <+: v → w'.tree.node? v = none := by
  -- What is no directory has nothing below it.
  have hgone : ∀ {t : FileTree}, t.node? d = none → (∀ v, isBelow d v = true → t.node? v = none) →
      ∀ v, d <+: v → t.node? v = none := by
    intro t hd hbelow v hv
    by_cases heq : v = d
    · rw [heq, hd]
    · exact hbelow v (isBelow_iff.2 ⟨hv, heq⟩)
  have hnothing : w.tree.node? d ≠ some .directory → ∀ v, isBelow d v = true → w.tree.node? v = none := by
    intro hdir v hv
    by_contra hn
    obtain ⟨n, hn⟩ := Option.ne_none_iff_exists'.1 hn
    exact hdir (htree.above hv hn)
  have hbelow_unbind : ∀ (t : FileTree) v, isBelow d v = true → (t.unbind d).node? v = t.node? v := fun t v hv => by
    rw [node?_unbind _ hnamed.ne_root, if_neg (isBelow_iff.1 hv).2]
  obtain ⟨out, w₁, hremove, hend⟩ := exists_of_outcome_bind_ok h
  rw [outcome_attempt, Workspace.outcome_removeDirectories hnamed, Prod.mk.injEq, Except.ok.injEq] at hremove
  obtain ⟨rfl, rfl⟩ := hremove
  rcases hlook : w.tree.look false dir with x | n <;> simp only [hlook] at hend
  · cases x <;> cases hend
    have hnone := happroach.node?_eq_none hnamed.ends hlook
    exact hgone hnone (hnothing (by simp [hnone]))
  obtain ⟨hnode, hreaches⟩ := look_named hnamed hlook
  cases n with
  | link target =>
    cases hend
    change ∀ v, d <+: v → (w.tree.unbind d).node? v = none
    refine hgone (by rw [node?_unbind _ hnamed.ne_root, if_pos rfl]) fun v hv => ?_
    rw [hbelow_unbind _ v hv, hnothing (by simp [hnode]) v hv]
  | file contents modified => cases hend
  | directory =>
    have hstands := hnamed.stands_unbindBelow hA hnode
    rcases hdirectory : (w.tree.unbindBelow d).removeDirectory dir with x | t <;> simp only [hdirectory] at hend
    · -- It cannot be that the emptied directory is not found.
      cases x <;> cases hend
      have hnone := (hreaches.unbindBelow hA).node?_eq_none hstands.plain hdirectory
      rw [node?_unbindBelow _ _ _ hnamed.ne_root, if_neg (by simp [isBelow_iff]), hnode] at hnone
      cases hnone
    · cases hend
      obtain ⟨rfl, -, -⟩ := removeDirectory_stands hstands hdirectory
      change ∀ v, d <+: v → ((w.tree.unbindBelow d).unbind d).node? v = none
      refine hgone (by rw [node?_unbind _ hnamed.ne_root, if_pos rfl]) fun v hv => ?_
      have hroot : v ≠ [] := by
        rintro rfl
        exact hnamed.ne_root (List.prefix_nil.1 (isBelow_iff.1 hv).1)
      rw [hbelow_unbind _ v hv, node?_unbindBelow _ _ _ hroot, if_pos hv]

/-! ## (2) What is apart -/

namespace Workspace

variable {w w' w₁ : Workspace} {dir root : String} {store : RecordStore} {d : Place} {place : Option Place}
  {record : BuildRecord}

/-- The places that ways may pass which outlast a check: those outside the directory, but for the file of the store, if
that is a link. -/
def Aside (w : Workspace) (d : Place) (place : Option Place) (v : Place) : Prop :=
  Outside d v ∧ (place = some v → ∀ target, w.tree.node? v ≠ some (.link target))

/-- `w.Separate dir store d place`: the directory, its lock and the store are apart from each other, and so are the ways
to them. -/
structure Separate (w : Workspace) (dir : String) (store : RecordStore) (d : Place) (place : Option Place) : Prop where
  /-- Everything stands in a directory. -/
  tree : w.tree.IsTree
  /-- The path of the store begins outside the directory. -/
  start : ∀ path, store = .file path → Outside d (w.tree.start path)
  /-- What the path of the directory names. -/
  named : w.tree.Named (w.Aside d place) dir d
  /-- The lock file leads somewhere. -/
  lock : ∃ q, w.tree.Resolves (w.Aside d place) (Lock.place d) q
  /-- Where the store stands. -/
  store : store.StandsAt w (w.Aside d place) place
  /-- That is outside the directory. -/
  outside : ∀ p, place = some p → Outside d p
  /-- The store is not written anew through a link. -/
  plain : ∀ p target, place = some p → w.tree.node? (RecordStore.temporaryPlace p w.process) ≠ some (.link target)
  /-- If the directory is a link, then the store is not where that leads. -/
  kept : ∀ p q e, place = some p → w.tree.Resolves (fun _ => True) p q → w.tree.Resolves (fun _ => True) d e →
    Outside e q

/-- Where the links are the same, ways may pass what they might pass. -/
theorem Aside.sameLinks {v : Place} (h : w.Aside d place v) (hlinks : SameLinks w.tree w'.tree) : w'.Aside d place v :=
  ⟨h.1, fun hp target hlink => h.2 hp target ((hlinks.link_iff v target).1 hlink)⟩

/-- Where the links are the same, everything is as far apart as it was. -/
theorem Separate.sameLinks (h : w.Separate dir store d place) (hlinks : SameLinks w.tree w'.tree)
    (hprocess : w'.process = w.process) (htree : w'.tree.IsTree) : w'.Separate dir store d place := by
  have haside : ∀ v, w.Aside d place v → w'.Aside d place v := fun v hv => hv.sameLinks hlinks
  obtain ⟨q, hlock⟩ := h.lock
  have hstart : ∀ path, w'.tree.start path = w.tree.start path := fun path => by
    rw [FileTree.start, FileTree.start, hlinks.base]
  refine ⟨htree, fun path hpath => hstart path ▸ h.start path hpath, (hlinks.named h.named).mono haside,
    ⟨q, (hlinks.resolves hlock).mono haside⟩,
    ((h.store.congr hlinks.base hprocess fun v target _ => hlinks.link_iff v target).1).mono haside, h.outside, ?_, ?_⟩
  · intro p target hp hlink
    rw [hprocess] at hlink
    exact h.plain p target hp ((hlinks.link_iff _ _).1 hlink)
  · intro p q e hp hq he
    exact h.kept p q e hp (hlinks.symm.resolves hq) (hlinks.symm.resolves he)

/-- Where the lock file leads is outside the directory. -/
theorem Separate.outside_lock (h : w.Separate dir store d place) {q : Place}
    (hlock : w.tree.Resolves (w.Aside d place) (Lock.place d) q) : Outside d q := by
  cases hlock with
  | self => exact Lock.not_prefix_place h.named.ne_root
  | through _ _ hq => exact hq.1

/-- `w.Settles d place w'`: what a check leaves outside the directory, of what stood there when its lock was taken. What
ways may pass stays, and so do all directories, and anything else stays, or is a file now, or is gone. -/
structure Settles (d : Place) (place : Option Place) (w w' : Workspace) : Prop where
  /-- What ways may pass. -/
  retains : Retains (w.Aside d place) w.tree w'.tree
  /-- The links there. -/
  link_iff : ∀ v target, w.Aside d place v →
    (w'.tree.node? v = some (.link target) ↔ w.tree.node? v = some (.link target))
  /-- Directories. -/
  directory : ∀ v, Outside d v → w.tree.node? v = some .directory → w'.tree.node? v = some .directory
  /-- All else. -/
  node : ∀ v n, Outside d v → w.tree.node? v = some n →
    w'.tree.node? v = some n ∨ ∀ n', w'.tree.node? v = some n' → n'.isFile = true
  /-- No lock is new. -/
  frees : w.Frees w'

/-- Removing what was left behind. -/
theorem settles_swept (htree : w.tree.IsTree) (dir : String) (d : Place) (place : Option Place) :
    w.Settles d place (w.withTree (Extraction.swept w.tree dir)) := by
  have hupholds := Extraction.upholds_swept htree dir
  refine ⟨hupholds.retains _, fun v target _ => ⟨fun hlink => ?_, hupholds.node v _ rfl⟩,
    fun v _ hdir => hupholds.node v _ rfl hdir, fun v n _ hn => ?_, (Frees.refl w).withTree _⟩
  · rcases Extraction.node?_swept w.tree dir v with hsame | ⟨hnone, -⟩
    · exact hsame.symm.trans hlink
    · cases hnone.symm.trans hlink
  · rcases Extraction.node?_swept w.tree dir v with hsame | ⟨hnone, -⟩
    · exact .inl (hsame.trans hn)
    · right
      intro n' hn'
      cases hnone.symm.trans hn'

/-- A record that was found is found still, and so are all others. -/
theorem Separate.answer_swept (h : w.Separate dir store d place) (hfound : store.answer w root = .ok (some record))
    (other : String) : store.answer (w.withTree (Extraction.swept w.tree dir)) other = store.answer w other := by
  have hrecords : (w.withTree (Extraction.swept w.tree dir)).records = w.records := rfl
  refine RecordStore.answer_congr hrecords ?_ other
  rintro path rfl
  obtain ⟨rs, hrs, hrecord⟩ := RecordStore.exists_recordsAt_of_answer hfound
  obtain ⟨c, hread, rfl⟩ := RecordStore.exists_read_of_recordsAt hrs hrecord
  cases h.store with
  | @file _ p q _ hnamed hleads _ =>
    obtain ⟨n, hway⟩ := hnamed.exists_leads hleads
    -- Leftovers are below what the directory leads to, and there the store is not.
    have hq : (Extraction.swept w.tree dir).node? q = w.tree.node? q := by
      refine (Extraction.node?_swept w.tree dir q).resolve_right fun ⟨_, name, hmem, _⟩ => ?_
      obtain ⟨-, top, slash, hlocate, htop⟩ := Extraction.file_of_mem_filesIn h.tree hmem
      exact h.kept p q top rfl (hleads.mono fun _ _ => trivial) (h.named.resolves_of_locate hlocate) htop
    have hread' := ((Extraction.upholds_swept h.tree dir).retains _).read hway hq hread
    rw [tree_withTree, RecordStore.recordsAt_of_read hread', RecordStore.recordsAt_of_read hread]

/-- Where the directory was cleared, ways that might be passed lead through no link to the records. -/
theorem Aside.ne_of_clears {v : Place} {target : String} (h : w.Aside d place v) (hclears : Clears d w.tree w₁.tree)
    (hlink : w₁.tree.node? v = some (.link target)) : place ≠ some v := fun hp =>
  h.2 hp target ((hclears.steady fun _ => False).fewer v target id hlink)

/-- Where the directory was cleared, writing the store anew does not make it. -/
theorem Separate.gone_of_renews (h : w.Separate dir store d place) (hclears : Clears d w.tree w₁.tree)
    (hrenews : store.Renews (w.Aside d place) place w₁ w') (hgone : w₁.tree.node? d = none) :
    w'.tree.node? d = none := by
  have hstart : ∀ path, store = .file path → Outside d (w₁.tree.start path) := fun path hpath => by
    rw [FileTree.start, hclears.base]
    exact h.start path hpath
  by_cases hfile : RecordStore.Files place w₁.process d
  · obtain ⟨p, hp, rfl | hd⟩ := hfile
    · exact absurd (List.prefix_refl d) (h.outside d hp)
    · rw [hd]
      exact hrenews.gone p hp
  · rw [hrenews.outside d h.named.ne_root hstart (fun v hv => hv.1) d (List.prefix_refl d) hfile]
    exact hgone

section Cleared

variable (h : w.Separate dir store d place) (hclears : Clears d w.tree w₁.tree) (hkeeps : w.Keeps w₁)

include h hclears hkeeps

/-- Where the directory was cleared, the store stands where it stood. -/
theorem Separate.store_cleared : store.StandsAt w₁ (w.Aside d place) place := by
  have hsteady := hclears.steady fun _ => False
  refine (h.store.congr hclears.base hkeeps.process fun v target hv => ?_).1
  by_cases hout : Outside d v
  · exact ⟨hsteady.fewer v target id, hsteady.outside v target hout id⟩
  -- A file of the store that is not outside is the one under which it is written anew.
  · have hplain : w.tree.node? v ≠ some (.link target) := by
      rcases hv with hv | ⟨p, hp, rfl | rfl⟩
      · exact absurd hv.1 hout
      · exact absurd (h.outside v hp) hout
      · exact h.plain p target hp
    exact ⟨fun hlink => absurd (hsteady.fewer v target id hlink) hplain, fun hlink => absurd hlink hplain⟩

/-- Answers stay, if the store can still be read. -/
theorem Separate.answer_cleared {found found' : Option BuildRecord} (hfound : store.answer w root = .ok found)
    (hfound' : store.answer w₁ root = .ok found') (other : String) : store.answer w₁ other = store.answer w other := by
  refine RecordStore.answer_congr hkeeps.records ?_ other
  rintro path rfl
  obtain ⟨rs, hrs, -⟩ := RecordStore.exists_recordsAt_of_answer hfound
  obtain ⟨rs', hrs', -⟩ := RecordStore.exists_recordsAt_of_answer hfound'
  cases h.store with
  | @file _ p q _ hnamed hleads _ =>
    obtain ⟨n, hway⟩ := hnamed.exists_leads hleads
    have hA : ∀ v, w.Aside d (some p) v ∨ v = p → Outside d v := fun v hv =>
      hv.elim (fun hv => hv.1) fun hv => hv ▸ h.outside p rfl
    have hq : Outside d q := hway.outside hA h.named.ne_root (h.start path rfl)
    rw [hrs, hrs', RecordStore.recordsAt_unique hclears.base (fun _ => hclears.node_outside) (hway.mono hA) hq hrs hrs']

/-- Where the store is written anew, there is no link. -/
theorem Separate.plain_cleared (p : Place) (target : String) (hp : place = some p) :
    w₁.tree.node? (RecordStore.temporaryPlace p w₁.process) ≠ some (.link target) := fun hlink =>
  h.plain p target hp ((hclears.steady fun _ => False).fewer _ _ id (hkeeps.process ▸ hlink))

/-- **Recording a build where the directory was cleared** settles. -/
theorem Separate.settles_of_renews (hrenews : store.Renews (w.Aside d place) place w₁ w') (hfrees : w.Frees w') :
    w.Settles d place w' := by
  have hsame : ∀ v, Outside d v → w₁.tree.node? v = w.tree.node? v := fun _ => hclears.node_outside
  have hretains : Retains (w.Aside d place) w.tree w₁.tree := ⟨hclears.base, fun v hv _ => hsame v hv.1⟩
  have hlink : ∀ v target, w.Aside d place v → RecordStore.Files place w₁.process v →
      w₁.tree.node? v ≠ some (.link target) := by
    rintro v target hv ⟨p, hp, rfl | rfl⟩ hlink
    · exact hv.ne_of_clears hclears hlink hp
    · exact h.plain_cleared hclears hkeeps p target hp hlink
  refine ⟨hretains.trans (hrenews.retains hlink), fun v target hv => ?_, fun v hv hdir => ?_, fun v n hv hn => ?_,
    hfrees⟩
  · rw [← hsame v hv.1]
    by_cases hfile : RecordStore.Files place w₁.process v
    · exact iff_of_false (fun hlink' => by cases hrenews.file v _ hfile hlink') (hlink v target hv hfile)
    · rcases hrenews.node v hfile with hsame' | ⟨hnone, hdir⟩
      · rw [hsame']
      · rw [hnone, hdir]
        simp
  · rw [← hsame v hv] at hdir
    have hfile : ¬ RecordStore.Files place w₁.process v := fun hfile => hrenews.plain v hfile hdir
    exact ((hrenews.node v hfile).resolve_right fun hnew => by cases hdir.symm.trans hnew.1).trans hdir
  · rw [← hsame v hv] at hn
    by_cases hfile : RecordStore.Files place w₁.process v
    · exact .inr fun n' => hrenews.file v n' hfile
    · exact .inl (((hrenews.node v hfile).resolve_right fun hnew => by cases hn.symm.trans hnew.1).trans hn)

/-- **Removing the directory and recording the build.** -/
theorem Separate.settles (hfrees : w.Frees w₁) {found : Option BuildRecord}
    (hfound : store.answer w root = .ok found)
    (hlayers : Table.Sorted record.layers) (hversion : record.version < UInt32.size)
    (hupdated : record.updated.Writable) (hgone : w₁.tree.node? d = none)
    (hput : (store.put root record).outcome w₁ = (.ok (), w')) :
    w.Settles d place w' ∧ w'.tree.node? d = none ∧ ∀ other,
      store.answer w' other = if other = root then .ok (some record) else store.answer w other := by
  obtain ⟨hrenews, hanswers⟩ := RecordStore.renews_of_put (h.store_cleared hclears hkeeps)
    (fun _ _ hv => hv.ne_of_clears hclears) (h.plain_cleared hclears hkeeps) hversion hlayers hupdated hput
  have hfrees' := (RecordStore.frees_put store w root record w₁ hfrees).of_outcome hput
  refine ⟨h.settles_of_renews hclears hkeeps hrenews hfrees', h.gone_of_renews hclears hrenews hgone,
    fun other => ?_⟩
  rw [hanswers]
  split
  · rfl
  · -- The records were read before they were written.
    have hread : ∃ found', store.answer w₁ root = .ok found' := by
      cases store with
      | memory => exact ⟨_, rfl⟩
      | file path =>
        obtain ⟨rs, hrs, -⟩ := RecordStore.exists_of_put hput
        exact ⟨_, by rw [RecordStore.answer_file, hrs]; rfl⟩
    obtain ⟨found', hfound'⟩ := hread
    exact h.answer_cleared hclears hkeeps hfound hfound' other

end Cleared

end Workspace

/-! ## (3) Checks -/

namespace Root

variable {r : Root} {store : RecordStore} {d : Place} {place : Option Place} {s s' : RootState} {check : BuildCheck}

/-- Taking the lock leaves the answers of a store as they were, if its path finds its file wherever one stands. -/
theorem answer_acquired {w w' : Workspace} {root : String} {found : Option BuildRecord}
    (h : w.Separate r.dir store d place)
    (hfile : ∀ path p q, store = .file path → place = some p → w.tree.Resolves (fun _ => True) p q →
      w.tree.read path = .error .notFound → w.tree.node? q = none)
    (hextends : w.Extends w') (hfound : store.answer w' root = .ok found) (other : String) :
    store.answer w' other = store.answer w other := by
  refine RecordStore.answer_congr hextends.records ?_ other
  rintro path rfl
  obtain ⟨rs, hrs, -⟩ := RecordStore.exists_recordsAt_of_answer hfound
  cases h.store with
  | @file _ p q _ hnamed hleads _ =>
    rw [hrs, RecordStore.recordsAt_of_grows hextends.grows hnamed hleads
      (hfile path p q rfl rfl (hleads.mono fun _ _ => trivial)) hrs]

/-- **What a check has found and left**, from when its lock was taken until that is given back. -/
theorem exists_settled (h : s.workspace.Separate r.dir store d place) (hclock : s.workspace.now.Writable)
    (hcheck : (r.checkBuild store).outcome s = (.ok check, s')) : ∃ ticket w w' record,
      (Lock.acquire r.dir r.lockTimeout).outcome s.workspace = (.ok ticket, w) ∧ w.Separate r.dir store d place ∧
      store.answer w r.dir = .ok record ∧ check = compareBuild record r.tokens ∧
      s'.workspace = Lock.release ticket w' ∧ w.Settles d place w' ∧
        (check = .unchanged ∧ (∀ other, store.answer w' other = store.answer w other) ∨
          check ≠ .unchanged ∧ s'.extracted = [] ∧ w'.tree.node? d = none ∧ ∃ updated, ∀ other,
            store.answer w' other =
              if other = r.dir then .ok (some (.new r.tokens updated)) else store.answer w other) := by
  obtain ⟨ticket, w, w', record, hacquire, hanswer, hcompare, hrelease, hcases⟩ := exists_of_checkBuild hcheck
  obtain ⟨q, hlock⟩ := h.lock
  have hextends := Workspace.acquire_extends s.workspace r.dir r.lockTimeout s.workspace (.refl h.tree)
  have hkeeps := Lock.acquire_keeps s.workspace r.dir r.lockTimeout s.workspace (.refl _)
  obtain ⟨-, -, -, happroach⟩ : (Lock.acquire r.dir r.lockTimeout).Yields s.workspace _ :=
    Lock.acquire_yields h.named hlock
  rw [Yields, hacquire] at hextends hkeeps
  rw [hacquire] at happroach
  have hlocked : w.Separate r.dir store d place :=
    h.sameLinks hextends.grows.sameLinks hkeeps.process hextends.isTree
  refine ⟨ticket, w, w', record, hacquire, hlocked, hanswer, hcompare, hrelease, ?_⟩
  rcases hcases with ⟨hunchanged, -, rfl⟩ | ⟨hchanged, hextracted, w₁, hremove, hput⟩
  · obtain ⟨found, rfl, -⟩ := exists_of_unchanged (hcompare.symm.trans hunchanged)
    exact ⟨Workspace.settles_swept hlocked.tree r.dir d place, .inl ⟨hunchanged, hlocked.answer_swept hanswer⟩⟩
  · -- The directory is gone when the build is put on record.
    have hgone := Extraction.gone_of_removeAll hlocked.tree.toGrounded hlocked.named (fun v hv => hv.1)
      (happroach ⟨_, rfl⟩) hremove d (List.prefix_refl d)
    have hremoved := Extraction.removeAll_yields hlocked.named (fun v hv hd => absurd hd hv.1)
      (hlocked.tree.rooted d) (happroach ⟨_, rfl⟩)
    have hfrees := Extraction.frees_removeAll w r.dir w (.refl w)
    rw [Yields, hremove] at hremoved hfrees
    obtain ⟨hkeeps₁, hclears, -⟩ := hremoved
    have hupdated : w₁.now.Writable := by
      rw [Workspace.now, hkeeps₁.clock, hkeeps.clock]
      exact hclock
    obtain ⟨hsettles, hnone, hanswers⟩ := hlocked.settles hclears hkeeps₁ hfrees hanswer r.sorted_tokens
      (show 1 < UInt32.size by decide) hupdated hgone hput
    exact ⟨hsettles, .inr ⟨hchanged, hextracted, hnone, w₁.now, hanswers⟩⟩

/-- **The lock of a check is got again** when the check is over. -/
theorem acquire_again_of_settles {ticket : Nat} {w w' : Workspace} (h : s.workspace.Separate r.dir store d place)
    (hacquire : (Lock.acquire r.dir r.lockTimeout).outcome s.workspace = (.ok ticket, w))
    (hsettles : w.Settles d place w') : ∃ ticket' w'',
      (Lock.acquire r.dir r.lockTimeout).outcome (Lock.release ticket w') = (.ok ticket', w'') ∧
        Grows w'.tree w''.tree ∧ w''.records = w'.records := by
  obtain ⟨q, hlock⟩ := h.lock
  have hextends := Workspace.acquire_extends s.workspace r.dir r.lockTimeout s.workspace (.refl h.tree)
  have hkeeps := Lock.acquire_keeps s.workspace r.dir r.lockTimeout s.workspace (.refl _)
  rw [Yields, hacquire] at hextends hkeeps
  have hlinks := hextends.grows.sameLinks
  obtain ⟨path, hpath, htaken⟩ := Lock.taken_of_acquire h.tree h.named hlock hacquire
  have hout : Outside d d.dropLast := fun hle => by
    have hlength := hle.length_le
    have hpos := List.length_pos_iff.2 h.named.ne_root
    rw [List.length_dropLast] at hlength
    omega
  -- Settling leaves the way to the lock file as it is.
  have hretains : Retains (s.workspace.Aside d place) w.tree (Lock.release ticket w').tree :=
    hsettles.retains.mono fun v hv => hv.sameLinks hlinks
  refine htaken.acquire_again hpath (hlinks.named h.named) (hlinks.resolves hlock) hretains
    (hsettles.directory _ hout htaken.parent) (fun v hv => ?_) (fun l hl => ?_) r.lockTimeout
  · -- Its file stands where it leads, and if that is elsewhere, a link stands at its place.
    obtain ⟨c, m, hfile⟩ := htaken.file
    have hsome : Outside d v ∧ ∃ n, w.tree.node? v = some n := by
      rcases hv with rfl | rfl
      · exact ⟨h.outside_lock hlock, _, hfile⟩
      · refine ⟨Lock.not_prefix_place h.named.ne_root, ?_⟩
        cases hlinks.resolves hlock with
        | self => exact ⟨_, hfile⟩
        | through hlink => exact ⟨_, hlink⟩
    obtain ⟨hv, n, hn⟩ := hsome
    exact (hsettles.node v n hv hn).imp_left fun hsame => hsame.trans hn.symm
  · obtain ⟨hl, hticket⟩ := List.mem_filter.1 hl
    exact ⟨hsettles.frees l hl, of_decide_eq_true hticket⟩

/-- Giving a lock back does not change what a store answers. -/
theorem answer_release (store : RecordStore) (ticket : Nat) (w : Workspace) (root : String) :
    store.answer (Lock.release ticket w) root = store.answer w root :=
  have hrecords : (Lock.release ticket w).records = w.records := rfl
  RecordStore.answer_congr hrecords (fun _ _ => rfl) root

/-- **A check that ends well decides and settles.** It finds nothing changed exactly if the store answers with a record
of the tokens. Otherwise it names what differs from the record, each name once and in order, or nothing if there is
none, and the directory and all that was extracted are gone. In either case the store then answers with a record of
the tokens and about other roots as before, and a check right after it finds nothing changed. -/
theorem checkBuild_converges (h : s.workspace.Separate r.dir store d place)
    (hfile : ∀ path p q, store = .file path → place = some p → s.workspace.tree.Resolves (fun _ => True) p q →
      s.workspace.tree.read path = .error .notFound → s.workspace.tree.node? q = none)
    (hrecords : ∀ root ∈ s.workspace.records, Table.Sorted root.2.layers) (hclock : s.workspace.now.Writable)
    (hcheck : (r.checkBuild store).outcome s = (.ok check, s')) :
    (check = .unchanged ↔ ∃ record, store.answer s.workspace r.dir = .ok (some record) ∧ record.layers = r.tokens) ∧
    (∀ changed, check = .invalidated changed →
      changed.Pairwise (· < ·) ∧
      (store.answer s.workspace r.dir = .ok none ∧ changed = [] ∨
        ∃ record, store.answer s.workspace r.dir = .ok (some record) ∧
          ∀ name, name ∈ changed ↔ Table.find? record.layers name ≠ Table.find? r.tokens name) ∧
      s'.workspace.tree.has r.dir = false ∧ s'.workspace.tree.node? d = none ∧ s'.extracted = []) ∧
    (∃ record, store.answer s'.workspace r.dir = .ok (some record) ∧ record.layers = r.tokens) ∧
    (∀ root, root ≠ r.dir → store.answer s'.workspace root = store.answer s.workspace root) ∧
    ((r.checkBuild store).outcome s').1 = .ok .unchanged := by
  obtain ⟨ticket, w, w', record, hacquire, hlocked, hanswer, rfl, hrelease, hsettles, hcases⟩ :=
    exists_settled h hclock hcheck
  have hextends := Workspace.acquire_extends s.workspace r.dir r.lockTimeout s.workspace (.refl h.tree)
  rw [Yields, hacquire] at hextends
  have hbefore := answer_acquired h hfile hextends hanswer
  have hsorted : ∀ found, record = some found → Table.Sorted found.layers := by
    rintro found rfl
    exact RecordStore.sorted_of_answer (hextends.records ▸ hrecords) hanswer
  have hdecides := compareBuild_iff hsorted r.sorted_tokens
  rw [hbefore] at hanswer
  -- What the store answers in the end.
  have hfinal : (∃ found, store.answer w' r.dir = .ok (some found) ∧ found.layers = r.tokens) ∧
      ∀ root, root ≠ r.dir → store.answer w' root = store.answer w root := by
    rcases hcases with ⟨hunchanged, hsame⟩ | ⟨-, -, -, updated, hanswers⟩
    · obtain ⟨found, rfl, hlayers⟩ := hdecides.1 hunchanged
      exact ⟨⟨found, by rw [hsame, hbefore, hanswer], hlayers⟩, fun root _ => hsame root⟩
    · exact ⟨⟨.new r.tokens updated, by rw [hanswers, if_pos rfl], rfl⟩, fun root hne => by rw [hanswers, if_neg hne]⟩
  obtain ⟨⟨found, hfound, hlayers⟩, hothers⟩ := hfinal
  rw [hrelease]
  have hfound' := (answer_release store ticket w' r.dir).trans hfound
  refine ⟨?_, fun changed hchanged => ?_, ⟨found, hfound', hlayers⟩, fun root hne => ?_, ?_⟩
  · rw [hdecides, hanswer]
    simp
  · rw [hchanged] at hcases
    obtain ⟨-, hextracted, hnone, -⟩ := hcases.resolve_left (by simp)
    have hnamed : w'.tree.Named (w.Aside d place) r.dir d :=
      hlocked.named.congr hsettles.retains.base (fun v target hv => hsettles.link_iff v target hv) (by simp [hnone])
    refine ⟨?_, ?_, hnamed.has_eq_false hnone, hnone, hextracted⟩
    · rcases changed_of_compareBuild hchanged with ⟨-, rfl⟩ | ⟨found, rfl, rfl⟩
      · exact .nil
      · exact BuildRecord.pairwise_differing (hsorted found rfl) r.sorted_tokens
    · rcases changed_of_compareBuild hchanged with ⟨rfl, rfl⟩ | ⟨found, rfl, rfl⟩
      · exact .inl ⟨hanswer, rfl⟩
      · exact .inr ⟨found, hanswer, fun name => BuildRecord.mem_differing (hsorted found rfl) r.sorted_tokens⟩
  · rw [answer_release, hothers root hne, hbefore]
  · obtain ⟨ticket', w'', hagain, hgrows, hsame⟩ := acquire_again_of_settles h hacquire hsettles
    rw [← hrelease] at hagain hfound'
    refine checkBuild_of_answer ⟨ticket', w'', hagain, ?_, ?_⟩ hfound' hlayers
    · rw [hrelease]
      exact hgrows
    · rw [hrelease]
      exact hsame

/-- Where no links are, a directory and a store that stand right below the root are apart. -/
theorem separate_of_linkFree {w : Workspace} {dir path name other : String} (htree : w.tree.IsTree)
    (hlinks : w.tree.LinkFree) (hbase : w.tree.base = []) (hdir : DiskPath.steps dir = [name])
    (hstore : DiskPath.steps path = [other]) (hup : name ≠ ".." ∧ other ≠ "..") (hne : name ≠ other) :
    w.Separate dir (.file path) [name] (some [other]) := by
  have hstart : ∀ path, w.tree.start path = [] := fun path => by rw [start, hbase, ite_self]
  have hnamed : ∀ {A : Place → Prop} {path name : String}, DiskPath.steps path = [name] → name ≠ ".." →
      w.tree.Named A path [name] := fun {A path name} hsteps hup =>
    ⟨⟨0, [], [], name, hsteps, hup, rfl, by rw [hstart]; exact .here⟩,
      fun target hlink => absurd hlink (hlinks _ target)⟩
  have hout : ∀ v, v = [] ∨ v = [other] → Outside [name] v := by
    rintro v (rfl | rfl) hle
    · simp at hle
    · exact hne (by simpa using hle)
  have hself : ∀ {p q : Place}, w.tree.Resolves (fun _ => True) p q → p = q := fun hq =>
    Resolves.unique (.self (A := fun _ => True) (hlinks _)) hq
  refine ⟨htree, fun path _ => hstart path ▸ hout [] (.inl rfl), hnamed hdir hup.1, ⟨_, .self (hlinks _)⟩,
    .file (hnamed hstore hup.2) (.self (hlinks _)) (.self (hlinks _)), ?_, fun _ target _ => hlinks _ target, ?_⟩
  · rintro _ ⟨⟩
    exact hout _ (.inr rfl)
  · rintro _ q e ⟨⟩ hq he
    obtain rfl := hself hq
    obtain rfl := hself he
    exact hout _ (.inr rfl)

/-- A state in which other tokens are recorded and something is extracted. -/
def outdated : RootState :=
  ⟨(firstChecked (.file "/s") [("a", "1"), ("b", "1")]).workspace.withTree
    ((firstChecked (.file "/s") [("a", "1"), ("b", "1")]).workspace.tree.bind ["x"] .directory), ["p"]⟩

/-- The workspace of the example keeps its directory, lock and store apart. -/
theorem outdated_separate : outdated.workspace.Separate "/x" (.file "/s") ["x"] (some ["s"]) := by
  have htree : outdated.workspace.tree.IsTree :=
    ⟨grounded_of_nodes (by decide +kernel) (by decide +kernel), by unfold Table.Sorted; decide +kernel⟩
  have hlinks : outdated.workspace.tree.LinkFree := linkFree_of_nodes (by decide +kernel)
  have hbase : outdated.workspace.tree.base = [] := by decide +kernel
  generalize outdated.workspace = w at htree hlinks hbase
  exact separate_of_linkFree htree hlinks hbase (by decide +kernel) (by decide +kernel) (by decide) (by decide)

/-- A check sees that one layer has another token. What was extracted is gone then, and the next check finds nothing
changed. -/
theorem outdated_converges : ∃ s', ((labelled [("a", "1"), ("b", "2")]).checkBuild (.file "/s")).outcome outdated =
    (.ok (.invalidated ["b"]), s') ∧ s'.workspace.tree.node? ["x"] = none ∧ s'.extracted = [] ∧
      (((labelled [("a", "1"), ("b", "2")]).checkBuild (.file "/s")).outcome s').1 = .ok .unchanged := by
  have hcheck : (((labelled [("a", "1"), ("b", "2")]).checkBuild (.file "/s")).outcome outdated).1 =
      .ok (.invalidated ["b"]) := by decide +kernel
  have hread : (outdated.workspace.tree.read "/s").isOk = true := by decide +kernel
  have hrecords : outdated.workspace.records.isEmpty = true := by decide +kernel
  have hclock : outdated.workspace.now = ⟨0, 0⟩ := by decide +kernel
  have hseparate := outdated_separate
  generalize outdated = s at hcheck hread hrecords hclock hseparate
  have hfile : s.workspace.tree.read "/s" ≠ .error .notFound := fun hnone => by
    simp [hnone, Except.isOk, Except.toBool] at hread
  obtain ⟨-, hchanged, -, -, hagain⟩ := checkBuild_converges hseparate
    (fun path p q hpath _ _ hnone => by cases hpath; exact absurd hnone hfile)
    (by simp [List.isEmpty_iff.1 hrecords]) (hclock ▸ ⟨by decide, by decide, .inl (by decide)⟩)
    (outcome_eq_of_fst hcheck)
  obtain ⟨-, -, -, hgone, hextracted⟩ := hchanged _ rfl
  exact ⟨_, outcome_eq_of_fst hcheck, hgone, hextracted, hagain⟩

/-- A check of the root of one layer, where nothing is but a tree. -/
def checkedIn (t : FileTree) (dir : String) (store : RecordStore) : Except ImportFailure BuildCheck × RootState :=
  (({ labelled [("a", "1")] with dir } : Root).checkBuild store).outcome ⟨.ofTree t, []⟩

/-- The next check. -/
def recheckedIn (t : FileTree) (dir : String) (store : RecordStore) : Except ImportFailure BuildCheck :=
  ((({ labelled [("a", "1")] with dir } : Root).checkBuild store).outcome (checkedIn t dir store).2).1

/-- **What is not apart does not settle.** Where the path of the store passes the directory, or that of the directory a
link in it, the directory stands again or still. Where the store is written through a link to itself, where the lock
file is a link into the directory, or where the path of the directory passes a link that is the file of the store, the
next check fails. And where the path of the store needs the directory that is made for the lock, the check finds a
record that nobody found before. -/
theorem intertwined_diverges :
    ((checkedIn ⟨[(["x"], .directory)], []⟩ "/x" (.file "/x/../s")).1 = .ok (.invalidated []) ∧
      (checkedIn ⟨[(["x"], .directory)], []⟩ "/x" (.file "/x/../s")).2.workspace.tree.has "/x" = true) ∧
    ((checkedIn ⟨[(["x"], .directory), (["x", "l"], .link "/y"), (["y"], .directory)], []⟩ "/x/l/../x" .memory).1 =
        .ok (.invalidated []) ∧
      (checkedIn ⟨[(["x"], .directory), (["x", "l"], .link "/y"), (["y"], .directory)], []⟩
        "/x/l/../x" .memory).2.workspace.tree.has "/x" = true) ∧
    ((checkedIn ⟨[([".s.1.tmp"], .link "s")], []⟩ "/x" (.file "/s")).1 = .ok (.invalidated []) ∧
      (recheckedIn ⟨[([".s.1.tmp"], .link "s")], []⟩ "/x" (.file "/s")).isOk = false) ∧
    ((checkedIn ⟨[([".x.lock"], .link "/x/k"), (["x"], .directory)], []⟩ "/x" .memory).1 = .ok (.invalidated []) ∧
      (recheckedIn ⟨[([".x.lock"], .link "/x/k"), (["x"], .directory)], []⟩ "/x" .memory).isOk = false) ∧
    ((checkedIn ⟨[(["r"], .directory), (["s"], .link "/r")], []⟩ "/s/x" (.file "/n/../s")).1 = .ok (.invalidated []) ∧
      (recheckedIn ⟨[(["r"], .directory), (["s"], .link "/r")], []⟩ "/s/x" (.file "/n/../s")).isOk = false) ∧
    ∃ t : FileTree, ((RecordStore.file "/n/../s").answer (.ofTree t) "/n/x").toOption = some none ∧
      (checkedIn t "/n/x" (.file "/n/../s")).1 = .ok .unchanged := by
  refine ⟨by decide +kernel, by decide +kernel, by decide +kernel, by decide +kernel, by decide +kernel,
    (checkedIn .empty "/n/x" (.file "/s")).2.workspace.tree.cleared ["n"], by decide +kernel, by decide +kernel⟩

end Root

end LayeredBundles
