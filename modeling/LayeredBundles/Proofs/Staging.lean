import LayeredBundles.Proofs.Layers
import LayeredBundles.Proofs.Workspaces

/-! # Writing an entry and moving it

An entry is written under a temporary name, and what was written is moved over its destination, which is cleared if a
directory is in the way. Whatever goes wrong, the temporary file is removed.

* **`Extraction.writeEntry_yields`** — the temporary file is written;
* **`Extraction.Replaces`** — it is where the destination was;
* **`Extraction.arrives_of_moveIntoPlace`**, **`Extraction.discards_of_moveIntoPlace`** — it is moved, or removed;
* **`Extraction.produce_keeps`** — nothing but the tree and the number of the next temporary file is changed. -/

namespace LayeredBundles

namespace Extraction

open DiskPath FileTree Fallible

variable {w w' : Workspace} {l : Layer} {e : Entry} {A B : Place → Prop} {dir dest temporary : String} {d p q : Place}
  {names segs : List String} {name hidden : String} {c : ByteArray} {m : Instant}

/-- Writing an entry changes nothing, or leaves a file at the place; if it ends well, the file is the
entry's. -/
theorem writeEntry_yields (hstands : w.tree.Stands A temporary q) :
    (writeEntry l e temporary).Yields w fun r w' =>
      ((∃ x, r = .error x) ∧ w' = w) ∨
        w.tree.Reaches A temporary q ∧ w.tree.node? q ≠ some .directory ∧
        ∃ c m, w.tree.Sets q (some (.file c m)) w'.tree ∧
          (r = .ok () → l.contents e.path = .ok c ∧ m = e.modified) := by
  have hne := hstands.ne_root
  rcases hout : l.writeOut e.path with ⟨out, r⟩
  unfold Yields writeEntry
  rw [hout]
  simp only [outcome_bind, outcome_failingAs, Workspace.outcome_write, outcome_ofExcept]
  rcases hwrite : w.tree.write temporary out w.clock with x | t
  · exact .inl ⟨⟨_, rfl⟩, rfl⟩
  -- The bytes are written, all of them or some; only then is the time set.
  · obtain ⟨rfl, hdir, hopens⟩ := write_stands hstands hwrite
    have hsets := sets_bind w.tree hne (.file out w.clock)
    rcases r with x | size
    · exact .inr ⟨hopens, hdir, out, w.clock, hsets, fun h => by cases h⟩
    · have hcontents : l.contents e.path = .ok out := by simp [Layer.contents, hout]
      have hstands' := hsets.stands hstands.plain (by simp) hstands
      simp only [Except.mapError, Workspace.outcome_change, Workspace.tree_withTree]
      rcases hstamp : (w.tree.bind q (.file out w.clock)).stamp temporary e.modified with x | t
      · exact .inr ⟨hopens, hdir, out, w.clock, hsets, fun h => by cases h⟩
      · obtain ⟨c, m, hc, rfl⟩ := stamp_stands hstands' hstamp
        rw [node?_bind _ hne, if_pos rfl] at hc
        cases hc
        exact .inr ⟨hopens, hdir, out, e.modified, hsets.trans (sets_bind _ hne _), fun _ => ⟨hcontents, rfl⟩⟩

/-- A file that is moved or discarded was moved, if that ends well. -/
theorem move_of_moveOrDiscard (h : (moveOrDiscard temporary dest).outcome w = (.ok (), w')) :
    w.tree.move temporary dest = .ok w'.tree := by
  obtain ⟨held, hmove⟩ := Workspace.outcome_move temporary dest w
  rw [moveOrDiscard, outcome_bind, outcome_attempt, hmove] at h
  rcases hresult : w.tree.move temporary dest with x | t
  · simp only [hresult] at h
    obtain ⟨_, _, -, hthrow⟩ := exists_of_outcome_bind_ok h
    cases hthrow
  · simp only [hresult] at h
    cases h
    rfl

/-- A file that is moved or discarded was discarded, if that does not end well. -/
theorem discards_of_moveOrDiscard (htemporary : w.tree.Stands B temporary q) (hopens : w.tree.Reaches B temporary q)
    (hends : Ends temporary q) (hnode : w.tree.node? q = some (.file c m)) {x : ImportFailure}
    (h : (moveOrDiscard temporary dest).outcome w = (.error x, w')) :
    (∃ cause, w.tree.move temporary dest = .error cause) ∧ w.tree.Sets q none w'.tree := by
  obtain ⟨held, hmove⟩ := Workspace.outcome_move temporary dest w
  rw [moveOrDiscard, outcome_bind, outcome_attempt, hmove] at h
  rcases hresult : w.tree.move temporary dest with cause | t
  · simp only [hresult] at h
    have hdiscard := Workspace.discard_yields (ε := ImportFailure) htemporary hopens hends hnode
    rw [outcome_bind_ok (Prod.ext hdiscard.1 hdiscard.2)] at h
    cases h
    exact ⟨⟨cause, rfl⟩, sets_unbind w.tree htemporary.ne_root⟩
  · simp only [hresult] at h
    cases h

/-- `Replaces t p q c m t'`: a file that stood at `q` stands at `p` now, where a directory may have been removed with
all that it held. -/
def Replaces (t : FileTree) (p q : Place) (c : ByteArray) (m : Instant) (t' : FileTree) : Prop :=
  ∃ t₁ t₂, (t.node? p ≠ some .directory ∧ t₁ = t ∨ t.node? p = some .directory ∧ t₁ = t.cleared p) ∧
    t₁.Sets q none t₂ ∧ t₂.Sets p (some (.file c m)) t'

/-- **A finished file that was moved into place** is seen there. -/
theorem arrives_of_moveIntoPlace (hdest : w.tree.Named A dest p)
    (hA : ∀ target, w.tree.node? p = some (.link target) → ¬ A p) (hsegs : segments dest = segs ++ [name])
    (hname : IsName name) (htemporary : w.tree.Stands B temporary q) (hnode : w.tree.node? q = some (.file c m))
    (h : (moveIntoPlace temporary dest).outcome w = (.ok (), w')) :
    w'.tree.look false dest = .ok (.file c m) ∧ Replaces w.tree p q c m w'.tree := by
  rw [moveIntoPlace, outcome_bind_ok (outcome_get w)] at h
  dsimp only at h
  split at h
  · next hlook =>
    obtain ⟨⟨⟩, w₁, hremove, hmove⟩ := exists_of_outcome_bind_ok h
    rw [outcome_failingAs, Prod.mk.injEq, mapError_eq_ok] at hremove
    obtain ⟨hdir, htree⟩ := Workspace.tree_of_removeDirectories hdest hsegs hname hlook (Prod.ext hremove.1 hremove.2)
    have hgone : ∀ v, w₁.tree.node? v = w.tree.node? v ∨ w₁.tree.node? v = none := by
      rcases htree with htree | htree <;> rw [htree]
      · exact node?_cleared_or w.tree hdest.ne_root
      · exact node?_unbindBelow_or w.tree p
    have hbase : w₁.tree.base = w.tree.base := by rcases htree with htree | htree <;> rw [htree] <;> rfl
    have hplain : ∀ target, w₁.tree.node? p ≠ some (.link target) := by
      intro target hlink
      rcases hgone p with hsame | hnone
      · rw [hsame, hdir] at hlink; cases hlink
      · rw [hnone] at hlink; cases hlink
    -- The move is made, so both paths name in the tree that is left what they named before.
    have hmoved := move_of_moveOrDiscard hmove
    obtain ⟨v, slash, n, v', slash', hlocate, hn, -, hlocate', -⟩ := exists_of_move hmoved
    have hdest₁ := hdest.across hbase (passable_of_gone hgone) (fun target hlink => absurd hlink (hplain target))
      hlocate'
    have htemporary₁ := htemporary.named.across hbase (passable_of_gone hgone) (fun target hlink => by
      rcases hgone q with hsame | hnone
      · rw [hsame, hnode] at hlink; cases hlink
      · rw [hnone] at hlink; cases hlink) hlocate
    obtain rfl := htemporary₁.eq_of_locate hlocate
    have hnode₁ : w₁.tree.node? v = some (.file c m) := by
      rcases hgone v with hsame | hnone
      · rw [hsame, hnode]
      · rw [hnone] at hn; cases hn
    obtain ⟨hnotdir, hlook', t₁, hfirst, hsecond⟩ :=
      look_of_move hdest₁ (fun target hlink => absurd hlink (hplain target)) htemporary₁ hnode₁ hmoved
    refine ⟨hlook', _, t₁, .inr ⟨hdir, ?_⟩, hfirst, hsecond⟩
    -- An emptied directory that was not removed would have stood in the way of the move.
    refine htree.resolve_right fun htree => hnotdir ?_
    simpa [htree, node?_unbindBelow_eq, isBelow_iff] using hdir
  · obtain ⟨hnotdir, hlook', t₁, hfirst, hsecond⟩ :=
      look_of_move hdest hA htemporary.named hnode (move_of_moveOrDiscard h)
    exact ⟨hlook', _, t₁, .inl ⟨hnotdir, rfl⟩, hfirst, hsecond⟩

/-- **A finished file that was not moved into place** is gone, and nothing else is: no directory was removed for it. -/
theorem discards_of_moveIntoPlace (hdest : w.tree.Stands (Outside p) dest p) (hsegs : segments dest = segs ++ [name])
    (hname : IsName name) (hends : Ends dest p) (htemporary : w.tree.Stands (Outside p) temporary q)
    (hopens : w.tree.Reaches (Outside p) temporary q) (hends' : Ends temporary q) (hq : Outside p q)
    (hnode : w.tree.node? q = some (.file c m)) {x : ImportFailure}
    (h : (moveIntoPlace temporary dest).outcome w = (.error x, w')) : w.tree.Sets q none w'.tree := by
  rw [moveIntoPlace, outcome_bind_ok (outcome_get w)] at h
  dsimp only at h
  split at h
  · next hlook =>
    exfalso
    obtain ⟨hok, htree⟩ := Workspace.removeDirectories_yields hdest.named (fun _ => id) hsegs hname hlook
    have hne := hdest.ne_root
    have hremove : ((Workspace.removeDirectories dest).failingAs ImportFailure.ofFile).outcome w
        = (.ok (), ((Workspace.removeDirectories dest).outcome w).2) := by rw [outcome_failingAs, hok]; rfl
    rw [outcome_bind_ok hremove] at h
    generalize ((Workspace.removeDirectories dest).outcome w).2 = w₁ at htree h
    -- Nothing on the way was removed, and nothing stands at the destination: the move is not refused.
    have hsame : ∀ v, Outside p v → w₁.tree.node? v = w.tree.node? v := fun v hv => by
      rw [htree, node?_cleared _ hne, if_neg hv]
    have hnone : w₁.tree.node? p = none := by rw [htree, node?_cleared _ hne, if_pos (List.prefix_refl p)]
    have hbase : w₁.tree.base = w.tree.base := by rw [htree]; rfl
    have hlinks : ∀ v target, Outside p v →
        (w₁.tree.node? v = some (.link target) ↔ w.tree.node? v = some (.link target)) :=
      fun v target hv => by rw [hsame v hv]
    have hdest₁ : w₁.tree.Stands (Outside p) dest p := hdest.congr hbase hlinks (by simp [hnone])
    have hnode₁ : w₁.tree.node? q = some (.file c m) := (hsame q hq).trans hnode
    have htemporary₁ : w₁.tree.Stands (Outside p) temporary q := htemporary.congr hbase hlinks (by simp [hnode₁])
    have hopens₁ : w₁.tree.Reaches (Outside p) temporary q := hopens.congr hbase fun v hv _ => hsame v hv
    have hreaches₁ : w₁.tree.Reaches (Outside p) dest p :=
      (look_stands hdest hlook).2.congr hbase fun v hv _ => hsame v hv
    obtain ⟨⟨cause, hmove⟩, -⟩ := discards_of_moveOrDiscard htemporary₁ hopens₁ hends' hnode₁ h
    rw [move_eq hdest₁ hreaches₁ hends htemporary₁ hopens₁ hends' hnode₁ (by simp [hnone])] at hmove
    cases hmove
  · exact (discards_of_moveOrDiscard htemporary hopens hends' hnode h).2

/-- Removing an extraction directory preserves what removing directories preserves. -/
theorem preserves_removeAll {I : Workspace → Prop} (h : (Workspace.removeDirectories dir).Preserves I) :
    (removeAll dir).Preserves I := by
  refine h.attempt.bind fun out => ?_
  split
  · exact preserves_pure ()
  · exact preserves_pure ()
  · exact preserves_throw _

/-- What no change of the tree reaches is kept from writing to the end. -/
theorem writeEntry_keeps (w₀ : Workspace) (l : Layer) (e : Entry) (temporary : String) :
    (writeEntry l e temporary).Preserves w₀.Keeps := by
  unfold writeEntry
  rcases l.writeOut e.path with ⟨out, r⟩
  refine ((Workspace.write_keeps w₀ temporary out).failingAs _).bind fun _ => (preserves_ofExcept _).bind fun _ => ?_
  exact (Workspace.change_keeps w₀ _).failingAs _

/-- Moving a file, or discarding it, changes the tree alone. -/
theorem moveOrDiscard_keeps (w₀ : Workspace) (temporary dest : String) :
    (moveOrDiscard temporary dest).Preserves w₀.Keeps := by
  unfold moveOrDiscard
  refine (Workspace.move_keeps w₀ temporary dest).attempt.bind fun r => ?_
  split
  · exact preserves_pure ()
  · exact (Workspace.discard_keeps w₀ temporary).bind fun _ => preserves_throw _

/-- So does moving it into place with a second attempt. -/
theorem moveIntoPlace_keeps (w₀ : Workspace) (temporary dest : String) :
    (moveIntoPlace temporary dest).Preserves w₀.Keeps := by
  unfold moveIntoPlace
  refine preserves_get.bind fun w => ?_
  dsimp only
  split
  · exact ((Workspace.removeDirectories_keeps w₀ dest).failingAs _).bind fun _ => moveOrDiscard_keeps w₀ temporary dest
  · exact moveOrDiscard_keeps w₀ temporary dest

/-- Producing an artifact changes the tree, and the number of the next temporary file. -/
theorem produce_keeps (w₀ : Workspace) (l : Layer) (e : Entry) (dest : String) :
    (produce l e dest).Preserves w₀.Keeps := by
  have hnew (front name : String) : (newTemporary front name).Preserves w₀.Keeps := fun w hw =>
    hw.trans ⟨rfl, rfl, rfl, Nat.le_succ _⟩
  unfold produce
  split
  · next front hfront =>
    refine ((Workspace.createDirectories_keeps w₀ front).failingAs _).bind fun _ => ?_
    refine (hnew front e.name).bind fun temporary => (writeEntry_keeps w₀ l e temporary).attempt.bind fun r => ?_
    split
    · exact moveIntoPlace_keeps w₀ temporary dest
    · exact (Workspace.discard_keeps w₀ temporary).bind fun _ => preserves_throw _
  · exact preserves_throw _

end Extraction

end LayeredBundles
