import LayeredBundles.Proofs.Changes

/-! # Operations of the workspace

What the single operations leave, and what none of them reaches: the records, the process and the clock.

* **`Workspace.discard_yields`** — a file that is discarded is gone;
* **`FileTree.Sets`** — one node is set, and nothing else changes;
* **`FileTree.look_of_move`** — what was moved is seen where it is now;
* **`Workspace.removeDirectories_yields`** — a directory is removed with all that it holds, or something stands in the
  way;
* **`Workspace.Keeps`** is preserved by each of them. -/

namespace LayeredBundles

namespace Workspace

open FileTree Fallible

variable {w : Workspace} {A : Place → Prop} {path : String} {p : Place}

/-! ## (1) Steps of the workspace -/

/-- To look at the tree changes nothing. -/
theorem outcome_ask {α : Type} (f : FileTree → Except FileError α) (w : Workspace) :
    (ask f).outcome w = (f w.tree, w) := rfl

/-- A change of the tree keeps what no change of the tree reaches. -/
theorem change_keeps (w₀ : Workspace) (f : FileTree → Except FileError FileTree) : (change f).Preserves w₀.Keeps := by
  intro w hw
  rw [Yields, outcome_change]
  split
  · exact hw.trans (keeps_withTree w _)
  · exact hw

variable [Charset]

/-- Discarding a file ends well, whether it could be removed or not. -/
theorem outcome_discard {ε : Type} (path : String) (w : Workspace) :
    (discard path : Work ε Unit).outcome w = (.ok (), match w.tree.remove path with
      | .ok t => w.withTree t
      | .error _ => w) := by
  have hremove : (remove path).outcome w = match w.tree.remove path with
      | .ok t => (.ok (), w.withTree t)
      | .error e => (.error e, w) := rfl
  rw [discard, outcome_bind, outcome_attempt, hremove]
  rcases w.tree.remove path with e | t <;> rfl

/-- A file that is discarded is gone if the way to it opens, and nothing else is. -/
theorem discard_yields {ε : Type} {contents : ByteArray} {m : Instant} (hstands : w.tree.Stands A path p)
    (hopens : w.tree.Reaches A path p) (hends : Ends path p) (hnode : w.tree.node? p = some (.file contents m)) :
    (discard path : Work ε Unit).Yields w fun r w' => r = .ok () ∧ w' = w.withTree (w.tree.unbind p) := by
  rw [Yields, outcome_discard, remove_eq hstands hopens hends hnode]
  exact ⟨rfl, rfl⟩

/-- However discarding ends, at most what stands at the place is gone. -/
theorem discard_yields_some {ε : Type} (hstands : w.tree.Stands A path p) :
    (discard path : Work ε Unit).Yields w fun r w' =>
      r = .ok () ∧ (w' = w ∨ w' = w.withTree (w.tree.unbind p)) := by
  rw [Yields, outcome_discard]
  rcases h : w.tree.remove path with e | t
  · exact ⟨rfl, .inl rfl⟩
  · rw [(remove_stands hstands h).1]
    exact ⟨rfl, .inr rfl⟩

/-- A file is written with the time of the clock, or the disk refuses and nothing is changed. -/
theorem outcome_write (path : String) (contents : ByteArray) (w : Workspace) :
    (write path contents).outcome w = match w.tree.write path contents w.clock with
      | .ok t => (.ok (), w.withTree t)
      | .error e => (.error e, w) := rfl

/-- A file is moved with the locks on it, or the disk refuses and nothing is changed. -/
theorem outcome_move (source target : String) (w : Workspace) :
    ∃ held, (move source target).outcome w = match w.tree.move source target with
      | .ok t => (.ok (), { w with held }.withTree t)
      | .error e => (.error e, w) := by
  rw [move, outcome_ofOutcome]
  rcases w.tree.move source target with e | t
  · exact ⟨w.held, rfl⟩
  · exact ⟨_, rfl⟩

/-- Writing a file changes the tree alone. -/
theorem write_keeps (w₀ : Workspace) (path : String) (contents : ByteArray) :
    (write path contents).Preserves w₀.Keeps := fun w hw => change_keeps w₀ (·.write path contents w.clock) w hw

/-- Moving one changes the tree and the places of locks alone. -/
theorem move_keeps (w₀ : Workspace) (source target : String) : (move source target).Preserves w₀.Keeps := by
  intro w hw
  obtain ⟨held, hmove⟩ := outcome_move source target w
  rw [Yields, hmove]
  split
  · exact hw.trans ⟨rfl, rfl, rfl, Nat.le_refl _⟩
  · exact hw

/-- Creating directories uses up no number. -/
theorem createDirectories_serial (w : Workspace) (path : String) :
    ((createDirectories path).outcome w).2.serial = w.serial := by
  refine preserves_createLineage (I := fun w' => w'.serial = w.serial) (fun p _ w' hw => ?_) w rfl
  rw [Yields, outcome_change]
  split
  · exact hw
  · exact hw

/-- Creating directories changes the tree alone. -/
theorem createDirectories_keeps (w₀ : Workspace) (path : String) : (createDirectories path).Preserves w₀.Keeps :=
  preserves_createLineage fun p _ => change_keeps w₀ (·.createDirectory p)

/-- So does discarding a file. -/
theorem discard_keeps {ε : Type} (w₀ : Workspace) (path : String) : (discard path : Work ε Unit).Preserves w₀.Keeps :=
  (change_keeps w₀ (·.remove path)).attempt.bind fun _ => preserves_pure ()

/-- What the single removals preserve is preserved when a directory is removed with all that it holds. -/
theorem preserves_removals {I : Workspace → Prop} (hremove : (remove path).Preserves I)
    (hempty : (emptyDirectory path).Preserves I) (hlast : (change (·.removeDirectory path)).Preserves I) :
    (removeDirectories path).Preserves I := by
  refine (preserves_ask _ _).bind fun n => ?_
  split
  · exact hremove
  · exact preserves_throw _
  · refine hempty.bind fun _ => hlast.attempt.bind fun out => ?_
    split
    · exact preserves_pure ()
    · exact preserves_pure ()
    · exact preserves_throw _

/-- So does removing a tree. -/
theorem removeDirectories_keeps (w₀ : Workspace) (path : String) : (removeDirectories path).Preserves w₀.Keeps :=
  preserves_removals (change_keeps w₀ _) (change_keeps w₀ _) (change_keeps w₀ _)

end Workspace

namespace FileTree

variable {t t' : FileTree} {A B : Place → Prop} {dir path other : String} {d p q : Place}

/-! ## (2) Changes of the tree -/

/-- A tree without a place and all that is below it. -/
def cleared (t : FileTree) (p : Place) : FileTree := (t.unbindBelow p).unbind p

/-- Nothing is listed below a place once all below it was taken away. -/
theorem listBelow_unbindBelow (t : FileTree) (p : Place) : (t.unbindBelow p).listBelow p = [] := by
  simp [listBelow, unbindBelow]

/-- Below a place is what goes on from it and is another. -/
theorem isBelow_iff {v : Place} : isBelow p v = true ↔ p <+: v ∧ v ≠ p := by
  simp [isBelow]

/-- Taking away all below a place leaves what is not below it. -/
theorem node?_unbindBelow_eq (t : FileTree) (p v : Place) :
    (t.unbindBelow p).node? v = if isBelow p v then none else t.node? v := by
  by_cases hv : v = []
  · subst hv
    have hroot : isBelow p [] = false := by
      rw [← Bool.not_eq_true, isBelow_iff]
      rintro ⟨hle, hne⟩
      exact hne (List.prefix_nil.1 hle).symm
    simp [hroot]
  · exact node?_unbindBelow t p v hv

/-- Clearing a place takes away what stands there too. -/
theorem node?_cleared (t : FileTree) (hp : p ≠ []) (v : Place) :
    (t.cleared p).node? v = if p <+: v then none else t.node? v := by
  rw [cleared, node?_unbind _ hp, node?_unbindBelow_eq]
  by_cases hv : v = p
  · subst hv
    simp
  · simp [hv, isBelow_iff]

/-- `t.Sets p n t'`: the trees differ at most at `p`, where `n` stands in the second one. -/
structure Sets (t : FileTree) (p : Place) (n : Option Node) (t' : FileTree) : Prop where
  /-- Relative paths begin where they began. -/
  base : t'.base = t.base
  /-- What stands at each place. -/
  node : ∀ v, t'.node? v = if v = p then n else t.node? v

/-- Putting something at a place sets it. -/
theorem sets_bind (t : FileTree) (hp : p ≠ []) (n : Node) : t.Sets p (some n) (t.bind p n) :=
  ⟨rfl, fun v => node?_bind t hp n v⟩

/-- Taking something away sets its place to nothing. -/
theorem sets_unbind (t : FileTree) (hp : p ≠ []) : t.Sets p none (t.unbind p) :=
  ⟨rfl, fun v => node?_unbind t hp v⟩

/-- What is set twice is set to the second. -/
theorem Sets.trans {t' t'' : FileTree} {n n' : Option Node} (h : t.Sets p n t') (h' : t'.Sets p n' t'') :
    t.Sets p n' t'' := by
  refine ⟨h'.base.trans h.base, fun v => ?_⟩
  rw [h'.node, h.node]
  split <;> rfl

/-- What stood at a place that is set anew does not matter when another place is cleared. -/
theorem Sets.cleared {q : Place} {t' t'' : FileTree} {n n' : Option Node} (hp : p ≠ [])
    (h : t.Sets q n t') (h' : (t'.cleared p).Sets q n' t'') : (t.cleared p).Sets q n' t'' := by
  refine ⟨h'.base.trans h.base, fun v => ?_⟩
  rw [h'.node]
  split
  · rfl
  · next hv => rw [node?_cleared _ hp, node?_cleared _ hp, h.node, if_neg hv]

/-- Where no link was and none comes, paths name the places they named. -/
theorem Sets.stands {n : Option Node} (h : t.Sets q n t') (hold : ∀ target, t.node? q ≠ some (.link target))
    (hnew : ∀ target, n ≠ some (.link target)) (hstands : t.Stands A path p) : t'.Stands A path p := by
  have hlink : ∀ v target, t'.node? v = some (.link target) ↔ t.node? v = some (.link target) := by
    intro v target
    rw [h.node]
    split
    · next hv =>
      subst hv
      exact iff_of_false (hnew target) (hold target)
    · rfl
  exact hstands.congr h.base (fun v target _ => hlink v target) fun target =>
    (hlink p target).not.2 (hstands.plain target)

/-- What cannot be passed may be set without closing a way. -/
theorem Sets.reaches [Charset] {n : Option Node} (h : t.Sets q n t') (hq : ¬ t.Passable q)
    (hreaches : t.Reaches A path p) :
    t'.Reaches A path p :=
  hreaches.congr h.base fun v _ hv => by
    rw [h.node, if_neg]
    rintro rfl
    exact hq hv

/-- What is neither a directory nor a link cannot be passed. -/
theorem not_passable [Charset] {v : Place} (hdir : t.node? v ≠ some .directory)
    (hplain : ∀ target, t.node? v ≠ some (.link target)) : ¬ t.Passable v := fun h => hdir (h.directory hplain)

/-- **A file that is moved is seen where it is now**, unless the way leads through a link that it replaced. -/
theorem look_of_move [Charset] (hpath : t.Named A path p) (hA : ∀ target, t.node? p = some (.link target) → ¬ A p)
    (hother : t.Named B other q) {c : ByteArray} {m : Instant} (hnode : t.node? q = some (.file c m))
    (h : t.move other path = .ok t') :
    t.node? p ≠ some .directory ∧ t'.look false path = .ok (.file c m) ∧
      ∃ t₁, t.Sets q none t₁ ∧ t₁.Sets p (some (.file c m)) t' := by
  obtain ⟨n, hn, -, rfl, hdir, hreaches, hends⟩ := move_named hpath hother h
  cases hnode.symm.trans hn
  have hunbind := sets_unbind t hother.ne_root
  have hbind := sets_bind (t.unbind q) hpath.ne_root (.file c m)
  -- Neither place was passed on the way, so the way is what it was.
  have hreaches' : ((t.unbind q).bind p (.file c m)).Reaches A path p := by
    refine hreaches.congr rfl fun v hv hpass => ?_
    have hvp : v ≠ p := by
      rintro rfl
      rcases hpass.leadsOn with hdirectory | ⟨target, hlink⟩
      · exact hdir hdirectory
      · exact hA target hlink hv
    have hvq : v ≠ q := by
      rintro rfl
      exact not_passable (by simp [hnode]) (by simp [hnode]) hpass
    rw [hbind.node, if_neg hvp, hunbind.node, if_neg hvq]
  have hplain : ∀ target, ((t.unbind q).bind p (.file c m)).node? p ≠ some (.link target) := by simp [hbind.node]
  have hlocate := hreaches'.locate hends hplain false
  refine ⟨hdir, ?_, _, hunbind, hbind⟩
  simp [look, hlocate, hbind.node]

/-- Where nothing is new but what cannot be passed, all that can be passed is the same. -/
theorem passable_of_gone [Charset] (h : ∀ v, t'.node? v = t.node? v ∨ t'.node? v = none) (v : Place)
    (hv : t'.Passable v) :
    t'.node? v = t.node? v := by
  rcases h v with hsame | hnone
  · exact hsame
  · rcases hv.leadsOn with hnode | ⟨target, hnode⟩ <;> rw [hnone] at hnode <;> cases hnode

/-- What stands once all below a place was taken away stood before. -/
theorem node?_unbindBelow_or (t : FileTree) (p v : Place) :
    (t.unbindBelow p).node? v = t.node? v ∨ (t.unbindBelow p).node? v = none := by
  rw [node?_unbindBelow_eq]
  split
  · exact .inr rfl
  · exact .inl rfl

/-- So does what stands once a place was cleared. -/
theorem node?_cleared_or (t : FileTree) (hp : p ≠ []) (v : Place) :
    (t.cleared p).node? v = t.node? v ∨ (t.cleared p).node? v = none := by
  rw [node?_cleared t hp]
  split
  · exact .inr rfl
  · exact .inl rfl

/-- A way outside a directory stays open when the directory is emptied. -/
theorem Reaches.unbindBelow [Charset] (h : t.Reaches A path p) (hA : ∀ v, A v → Outside p v) :
    (t.unbindBelow p).Reaches A path p :=
  h.congr rfl fun v hv _ => by rw [node?_unbindBelow_eq, if_neg fun hbelow => hA v hv (isBelow_iff.1 hbelow).1]

/-- A path whose way is outside a directory names it still when it is emptied. -/
theorem Named.stands_unbindBelow (h : t.Named A path p) (hA : ∀ v, A v → Outside p v)
    (hnode : t.node? p = some .directory) : (t.unbindBelow p).Stands A path p := by
  have hplain : ∀ target, (t.unbindBelow p).node? p ≠ some (.link target) := by
    simp [node?_unbindBelow_eq, isBelow_iff, hnode]
  have hnamed : (t.unbindBelow p).Named A path p := by
    refine h.congr rfl (fun v target hv => ?_) fun target hlink => absurd hlink (hplain target)
    rw [node?_unbindBelow_eq, if_neg fun hbelow => hA v hv (isBelow_iff.1 hbelow).1]
  exact hnamed.stands hplain

end FileTree

namespace Workspace

open DiskPath FileTree Fallible

variable [Charset] {w w' : Workspace} {A : Place → Prop} {dest name : String} {p : Place} {segs : List String}

/-! ## (3) Removing directories -/

/-- Of a directory all that it holds is removed, and then the directory, if it is still found; of a link only the link
is removed. -/
theorem outcome_removeDirectories (hdest : w.tree.Named A dest p) :
    (removeDirectories dest).outcome w = match w.tree.look false dest with
      | .error e => (.error e, w)
      | .ok (.link _) => (.ok (), w.withTree (w.tree.unbind p))
      | .ok (.file ..) => (.error .notADirectory, w)
      | .ok .directory => match (w.tree.unbindBelow p).removeDirectory dest with
        | .ok t => (.ok (), (w.withTree (w.tree.unbindBelow p)).withTree t)
        | .error .notFound => (.ok (), w.withTree (w.tree.unbindBelow p))
        | .error e => (.error e, w.withTree (w.tree.unbindBelow p)) := by
  have hask := outcome_ask (·.look false dest) w
  rw [removeDirectories]
  rcases hlook : w.tree.look false dest with e | n <;> rw [hlook] at hask
  · exact outcome_bind_error hask _
  obtain ⟨hnode, hopens⟩ := look_named hdest hlook
  rw [outcome_bind_ok hask]
  cases n with
  | link target =>
    rw [remove, outcome_change]
    simp only [remove_link hdest hlook]
  | file contents modified => rfl
  | directory =>
    -- A directory that was found without following links is the one that is emptied.
    have hempty : (emptyDirectory dest).outcome w = (.ok (), w.withTree (w.tree.unbindBelow p)) := by
      rw [emptyDirectory, outcome_change]
      simp only [hopens.locate_directory hnode true]
    dsimp only
    rw [outcome_bind_ok hempty, outcome_bind, outcome_attempt, outcome_change, tree_withTree]
    rcases (w.tree.unbindBelow p).removeDirectory dest with e | t
    · cases e <;> rfl
    · rfl

/-- A directory is removed with all that it holds, if the way to it does not lead through it. -/
theorem removeDirectories_yields (hdest : w.tree.Named A dest p) (hA : ∀ v, A v → Outside p v)
    (hsegs : segments dest = segs ++ [name]) (hname : IsName name) (hlook : w.tree.look false dest = .ok .directory) :
    (removeDirectories dest).Yields w fun r w' => r = .ok () ∧ w'.tree = w.tree.cleared p := by
  obtain ⟨hnode, hopens⟩ := look_named hdest hlook
  have hnode' : (w.tree.unbindBelow p).node? p = some .directory := by
    simpa [node?_unbindBelow_eq, isBelow_iff] using hnode
  rw [Yields, outcome_removeDirectories hdest]
  simp only [hlook, removeDirectory_eq (hdest.stands_unbindBelow hA hnode) (hopens.unbindBelow hA) hsegs hname hnode'
    (listBelow_unbindBelow _ _)]
  exact ⟨trivial, rfl⟩

/-- Where removing a directory ends well, it is gone, or it was emptied and its path leads to nothing any more. -/
theorem tree_of_removeDirectories (hdest : w.tree.Named A dest p) (hsegs : segments dest = segs ++ [name])
    (hname : IsName name) (hlook : w.tree.look false dest = .ok .directory)
    (h : (removeDirectories dest).outcome w = (.ok (), w')) :
    w.tree.node? p = some .directory ∧
      (w'.tree = w.tree.cleared p ∨ w'.tree = w.tree.unbindBelow p) := by
  obtain ⟨hnode, hopens⟩ := look_named hdest hlook
  refine ⟨hnode, ?_⟩
  rw [outcome_removeDirectories hdest] at h
  simp only [hlook] at h
  split at h
  · next t hremove =>
    cases h
    obtain ⟨v, slash, hlocate, -, -, rfl⟩ := exists_of_removeDirectory hremove
    rw [bare_eq_self hsegs hname.ne_empty] at hlocate
    have hlink : ∀ target, (w.tree.unbindBelow p).node? p = some (.link target) → Ends dest p := by
      simp [node?_unbindBelow_eq, isBelow_iff, hnode]
    have hbase : (w.tree.unbindBelow p).base = w.tree.base := rfl
    have hdest' := hdest.across hbase (passable_of_gone (node?_unbindBelow_or w.tree p)) hlink hlocate
    obtain rfl := hdest'.eq_of_locate hlocate
    exact .inl rfl
  · cases h
    exact .inr rfl
  · cases h

end Workspace

end LayeredBundles
