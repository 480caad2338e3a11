import LayeredBundles.Proofs.Effects
import LayeredBundles.Proofs.Openings

/-! # What changes of the tree leave alone

A change of the tree is described by the nodes it may touch. Everything else stays, except that
directories may be made where nothing stood.

* **`FileTree.Touches X t t'`** — a node is the same, a new directory, or changed as `X` allows;
  **`FileTree.Adds`** allows nothing but new directories;
* **`Workspace.Keeps`** — the parts of a workspace that no change of the tree reaches;
* **`Workspace.createDirectories_yields`** — creating directories adds directories;
* **`FileTree.write_named`**, **`remove_named`**, **`move_named`** — what changes do to links;
* **`FileTree.write_stands`**, **`remove_stands`**, **`stamp_stands`**, **`move_stands`** — what changes do,
  by the place alone at which something stands. -/

namespace LayeredBundles

namespace FileTree

variable {t t' t'' : FileTree} {X Y : Place → Option Node → Prop}

/-! ## (1) Changes by the nodes they touch -/

/-- Putting something into a tree does not move where relative paths begin. -/
@[simp] theorem base_bind (t : FileTree) (p : Place) (n : Node) : (t.bind p n).base = t.base := rfl

/-- Nor does taking something away. -/
@[simp] theorem base_unbind (t : FileTree) (p : Place) : (t.unbind p).base = t.base := rfl

/-- Nor does taking away all below a place. -/
@[simp] theorem base_unbindBelow (t : FileTree) (p : Place) : (t.unbindBelow p).base = t.base := rfl

/-- `t.Touches X t'`: every node of `t'` is that of `t`, or a directory where nothing stood, or `X`
allows it. -/
structure Touches (X : Place → Option Node → Prop) (t t' : FileTree) : Prop where
  /-- Relative paths begin where they began. -/
  base : t'.base = t.base
  /-- What stands at each place. -/
  node : ∀ v, t'.node? v = t.node? v ∨ (t.node? v = none ∧ t'.node? v = some .directory) ∨
    X v (t'.node? v)

/-- Nothing but new directories. -/
abbrev Adds (t t' : FileTree) : Prop := Touches (fun _ _ => False) t t'

/-- A tree that stays as it is is touched nowhere. -/
theorem Touches.refl (X : Place → Option Node → Prop) (t : FileTree) : Touches X t t :=
  ⟨rfl, fun _ => .inl rfl⟩

/-- What is touched within some bounds is touched within wider ones. -/
theorem Touches.mono (h : Touches X t t') (hXY : ∀ v n, X v n → Y v n) : Touches Y t t' :=
  ⟨h.base, fun v => (h.node v).imp id fun hv => hv.imp id (hXY v _)⟩

/-- A change of a tree to which directories were added is a change of the tree before that. -/
theorem Adds.trans (h : Adds t t') (h' : Touches X t' t'') : Touches X t t'' := by
  refine ⟨h'.base.trans h.base, fun v => ?_⟩
  rcases h.node v with hsame | ⟨hnone, hdir⟩ | hfalse
  · rw [← hsame]; exact h'.node v
  · rcases h'.node v with hsame | ⟨hnone', -⟩ | hX
    · exact .inr (.inl ⟨hnone, hsame.trans hdir⟩)
    · rw [hdir] at hnone'; cases hnone'
    · exact .inr (.inr hX)
  · exact hfalse.elim

/-- Changes follow each other, if a directory may stand wherever something may be gone. -/
theorem Touches.trans (hX : ∀ v, X v none → X v (some .directory)) (h : Touches X t t') (h' : Touches X t' t'') :
    Touches X t t'' := by
  refine ⟨h'.base.trans h.base, fun v => ?_⟩
  rcases h'.node v with hsame' | ⟨hnone', hdir'⟩ | hX'
  · rw [hsame']
    exact h.node v
  · rcases h.node v with hsame | ⟨-, hdir⟩ | hgone
    · exact .inr (.inl ⟨hsame ▸ hnone', hdir'⟩)
    · rw [hdir] at hnone'; cases hnone'
    · rw [hnone'] at hgone
      exact .inr (.inr (hdir' ▸ hX v hgone))
  · exact .inr (.inr hX')

/-- What stood before directories were added still stands. -/
theorem Adds.node_of_some (h : Adds t t') {v : Place} {n : Node} (hn : t.node? v = some n) :
    t'.node? v = some n := by
  rcases h.node v with hsame | ⟨hnone, -⟩ | hfalse
  · rw [hsame, hn]
  · rw [hn] at hnone; cases hnone
  · exact hfalse.elim

/-- Adding directories adds no links and takes none away. -/
theorem Adds.link_iff (h : Adds t t') (v : Place) (target : String) :
    t'.node? v = some (.link target) ↔ t.node? v = some (.link target) := by
  rcases h.node v with hsame | ⟨hnone, hdir⟩ | hfalse
  · rw [hsame]
  · rw [hnone, hdir]; simp
  · exact hfalse.elim

/-! ## (2) Directories -/

variable [Charset]

/-- **Creating a directory** adds directories and nothing else. -/
theorem createDirectory_adds {path : String} (h : t.createDirectory path = .ok t') : Adds t t' := by
  unfold createDirectory at h
  split at h
  · cases h
  · next p slash _ =>
    split at h
    · cases h
    · next hnone =>
      cases h
      have hp : p ≠ [] := by rintro rfl; simp at hnone
      refine ⟨rfl, fun v => ?_⟩
      rw [node?_bind t hp]
      by_cases hv : v = p
      · subst hv; exact .inr (.inl ⟨hnone, by simp⟩)
      · exact .inl (by simp [hv])

end FileTree

namespace Workspace

/-- `w.Keeps w'`: what no change of the tree reaches is the same, and numbers of temporary files are not
used again. -/
structure Keeps (w w' : Workspace) : Prop where
  /-- The records in memory. -/
  records : w'.records = w.records
  /-- The process. -/
  process : w'.process = w.process
  /-- The time. -/
  clock : w'.clock = w.clock
  /-- The next temporary file. -/
  serial : w.serial ≤ w'.serial

/-- A workspace that stays as it is keeps what it has. -/
theorem Keeps.refl (w : Workspace) : w.Keeps w := ⟨rfl, rfl, rfl, Nat.le_refl _⟩

/-- What is kept twice is kept. -/
theorem Keeps.trans {w₁ w₂ w₃ : Workspace} (h : w₁.Keeps w₂) (h' : w₂.Keeps w₃) : w₁.Keeps w₃ :=
  ⟨h'.records.trans h.records, h'.process.trans h.process, h'.clock.trans h.clock,
    Nat.le_trans h.serial h'.serial⟩

/-- Another tree leaves the process, the clock and the records alone. -/
theorem keeps_withTree (w : Workspace) (t : FileTree) : w.Keeps (w.withTree t) :=
  ⟨rfl, rfl, rfl, Nat.le_refl _⟩

/-- The tree is the one that was put there. -/
@[simp] theorem tree_withTree (w : Workspace) (t : FileTree) : (w.withTree t).tree = t := rfl

/-- Directories are added to the tree, and the rest is kept. -/
structure Prepares (w w' : Workspace) : Prop where
  /-- Directories are added. -/
  adds : FileTree.Adds w.tree w'.tree
  /-- The rest is kept. -/
  keeps : w.Keeps w'

/-- A workspace that stays as it is is prepared for anything. -/
theorem Prepares.refl (w : Workspace) : w.Prepares w := ⟨.refl _ _, .refl _⟩

/-- Preparing a workspace twice is preparing it. -/
theorem Prepares.trans {w₁ w₂ w₃ : Workspace} (h : w₁.Prepares w₂) (h' : w₂.Prepares w₃) :
    w₁.Prepares w₃ := ⟨h.adds.trans h'.adds, h.keeps.trans h'.keeps⟩

/-- A change of the tree is made as a whole, or the file system refuses and nothing is changed. -/
theorem outcome_change (f : FileTree → Except FileError FileTree) (w : Workspace) :
    (change f).outcome w = match f w.tree with
      | .ok t => (.ok (), w.withTree t)
      | .error e => (.error e, w) := rfl

/-- To look at the tree preserves anything. -/
theorem preserves_ask {α : Type} (I : Workspace → Prop) (f : FileTree → Except FileError α) :
    (ask f).Preserves I := fun _ hw => hw

variable [Charset]

/-- From any state that was prepared, creating a directory goes on preparing the workspace. -/
theorem preserves_createDirectory (w₀ : Workspace) (path : String) :
    (change (·.createDirectory path)).Preserves w₀.Prepares := by
  intro w hw
  rw [Fallible.Yields, outcome_change]
  split
  · next t h => exact hw.trans ⟨FileTree.createDirectory_adds h, keeps_withTree w t⟩
  · exact hw

/-- What creating each of some directories preserves, creating them one below the other does. -/
theorem preserves_createLineage {I : Workspace → Prop} {paths : List String}
    (h : ∀ path ∈ paths, (change (·.createDirectory path)).Preserves I) : (createLineage paths).Preserves I := by
  induction paths with
  | nil => exact Fallible.preserves_ofExcept _
  | cons path above ih =>
    have hmake : ((change (·.createDirectory path)).attempt : Work FileError _).Preserves I :=
      (h path (by simp)).attempt
    -- The path itself is tried first. Where that fails, what it stands below is made, and it is tried again.
    unfold createLineage
    split
    · exact Fallible.preserves_pure ()
    · refine hmake.bind fun r => ?_
      split
      · exact Fallible.preserves_pure ()
      · split
        · exact preserves_ask _ _
        · refine (ih fun p hp => h p (List.mem_cons_of_mem _ hp)).bind fun _ => hmake.bind fun r => ?_
          split
          · exact Fallible.preserves_pure ()
          · exact preserves_ask _ _

/-- **Creating directories adds directories**, whether it ends well or not. -/
theorem createDirectories_yields (w : Workspace) (path : String) :
    (createDirectories path).Yields w fun _ w' => w.Prepares w' :=
  preserves_createLineage (fun p _ => preserves_createDirectory w p) w (.refl w)

end Workspace

/-! ## (3) Operations on what stands at a place -/

namespace FileTree

variable [Charset] {t t' : FileTree} {A B : Place → Prop} {path other : String} {p q : Place}
  {contents : ByteArray} {modified : Instant}

/-- What is seen at a path stands where the path is located. -/
theorem exists_of_look {th : Bool} {n : Node} (h : t.look th path = .ok n) :
    ∃ v slash, t.locate th path = .ok (v, slash) ∧ t.node? v = some n := by
  unfold look at h
  split at h
  · cases h
  · next v slash hlocate =>
    split at h
    · next hnode =>
      cases h
      exact ⟨v, slash, hlocate, hnode⟩
    · cases h

/-- What is read at a path is in a file. -/
theorem exists_of_read (h : t.read path = .ok contents) :
    ∃ v slash m, t.locate true path = .ok (v, slash) ∧ t.node? v = some (.file contents m) := by
  unfold read at h
  split at h <;> cases h
  next m hlook =>
  obtain ⟨v, slash, hlocate, hnode⟩ := exists_of_look hlook
  exact ⟨v, slash, m, hlocate, hnode⟩

/-- A file is opened where its path is located, and neither a directory nor a link stands there. -/
theorem exists_of_locateFile {n : Option Node} (h : t.locateFile path = .ok (p, n)) :
    ∃ slash, t.locate true path = .ok (p, slash) ∧ n = t.node? p ∧ n ≠ some .directory ∧
      ∀ target, n ≠ some (.link target) := by
  unfold locateFile at h
  split at h
  · split at h <;> cases h
  split at h
  · cases h
  next v slash hlocate =>
  split at h
  · cases h
  · cases h
  · next n hdir hlink hnode =>
    cases h
    exact ⟨slash, hlocate, hnode.symm, fun hn => hdir (Option.some.inj hn), fun target hn =>
      hlink target (Option.some.inj hn)⟩
  · next hnode =>
    split at h <;> cases h
    exact ⟨slash, hlocate, hnode.symm, by simp, by simp⟩

/-- What a move takes and where it puts it. -/
theorem exists_of_move (h : t.move other path = .ok t') : ∃ q slash n p slash',
    t.locate false other = .ok (q, slash) ∧ t.node? q = some n ∧ n ≠ .directory ∧
      t.locate false path = .ok (p, slash') ∧ ¬ Text.endsWith "/" path = true ∧ t.node? p ≠ some .directory ∧
        t' = (t.unbind q).bind p n := by
  unfold move at h
  split at h
  · cases h
  next q slash hlocate =>
  split at h
  · cases h
  · cases h
  next n hdir hnode =>
  split at h
  · cases h
  next p slash' hlocate' =>
  split at h
  · cases h
  next hslash =>
  split at h
  · cases h
  next hdir' =>
  cases h
  exact ⟨q, slash, n, p, slash', hlocate, hnode, hdir, hlocate', hslash, fun heq => hdir' heq, rfl⟩

/-- A directory that is removed is empty, and stands where its path is located. -/
theorem exists_of_removeDirectory (h : t.removeDirectory path = .ok t') : ∃ v slash,
    t.locate false (bare path) = .ok (v, slash) ∧ t.node? v = some .directory ∧ t.listBelow v = [] ∧
      t' = t.unbind v := by
  unfold removeDirectory at h
  split at h
  · cases h
  next v slash hlocate =>
  split at h
  · cases h
  · next hnode =>
    split at h
    · cases h
    · cases h
    · split at h
      · cases h
      · split at h
        · next hempty =>
          cases h
          exact ⟨v, slash, hlocate, hnode, List.isEmpty_iff.1 hempty, rfl⟩
        · cases h
  · cases h

section Named

variable (hnamed : t.Named A path p)

include hnamed

/-- What is seen at the path is what is named. -/
theorem look_named {n : Node} (h : t.look false path = .ok n) : t.node? p = some n ∧ t.Reaches A path p := by
  obtain ⟨v, slash, hlocate, hnode⟩ := exists_of_look h
  obtain rfl := hnamed.eq_of_locate hlocate
  exact ⟨hnode, hnamed.reaches hlocate⟩

/-- A link that is seen can be removed. -/
theorem remove_link {target : String} (h : t.look false path = .ok (.link target)) :
    t.remove path = .ok (t.unbind p) := by
  obtain ⟨v, slash, hlocate, hnode⟩ := exists_of_look h
  obtain rfl := hnamed.eq_of_locate hlocate
  simp only [remove, hlocate, hnode]

/-- A file is opened where the path leads, links followed. -/
theorem locateFile_named (hq : t.Resolves B p q) {v : Place} {n : Option Node} (h : t.locateFile path = .ok (v, n)) :
    v = q ∧ n = t.node? q ∧ n ≠ some .directory ∧ (∀ target, n ≠ some (.link target)) ∧ t.Reaches A path p := by
  obtain ⟨slash, hlocate, hnode, hdir, hlink⟩ := exists_of_locateFile h
  obtain rfl := hnamed.eq_of_locate_true hq hlocate
  exact ⟨rfl, hnode, hdir, hlink, hnamed.reaches hlocate⟩

/-- Writing puts a file where the path leads. -/
theorem write_named (hq : t.Resolves B p q) (h : t.write path contents modified = .ok t') :
    t' = t.bind q (.file contents modified) ∧ t.node? q ≠ some .directory ∧
      (∀ target, t.node? q ≠ some (.link target)) ∧ t.Reaches A path p := by
  unfold write at h
  split at h
  · cases h
  · next v n hlocate =>
    obtain ⟨rfl, rfl, hdir, hlink, hreaches⟩ := locateFile_named hnamed hq hlocate
    cases h
    exact ⟨rfl, hdir, hlink, hreaches⟩

/-- Removing takes away what is named, and that is no directory. -/
theorem remove_named (h : t.remove path = .ok t') : t' = t.unbind p ∧ t.node? p ≠ some .directory := by
  unfold remove at h
  split at h
  · cases h
  · next v slash hlocate =>
    obtain rfl := hnamed.eq_of_locate hlocate
    split at h
    · cases h
    · cases h
    · next n hdir hnode =>
      cases h
      exact ⟨rfl, fun heq => hdir (Option.some.inj (hnode.symm.trans heq))⟩

/-- Moving takes what one path names to where another one names, if no directory stands there. -/
theorem move_named (hother : t.Named B other q) (h : t.move other path = .ok t') :
    ∃ n, t.node? q = some n ∧ n ≠ .directory ∧ t' = (t.unbind q).bind p n ∧
      t.node? p ≠ some .directory ∧ t.Reaches A path p ∧ Ends path p := by
  obtain ⟨v, slash, n, v', slash', hlocate, hnode, hdir, hlocate', hslash, hdir', ht'⟩ := exists_of_move h
  obtain rfl := hother.eq_of_locate hlocate
  obtain rfl := hnamed.eq_of_locate hlocate'
  exact ⟨n, hnode, hdir, ht', hdir', hnamed.reaches hlocate', hnamed.ends_of_locate hlocate' hslash hdir'⟩

end Named

section Stands

variable (hstands : t.Stands A path p)

include hstands

/-- What is seen at the path stands at the place. -/
theorem look_stands {n : Node} (h : t.look false path = .ok n) :
    t.node? p = some n ∧ t.Reaches A path p := look_named hstands.named h

/-- Writing puts a file at the place. -/
theorem write_stands (h : t.write path contents modified = .ok t') :
    t' = t.bind p (.file contents modified) ∧ t.node? p ≠ some .directory ∧ t.Reaches A path p := by
  obtain ⟨ht, hdir, -, hreaches⟩ := write_named hstands.named (.self (A := A) hstands.plain) h
  exact ⟨ht, hdir, hreaches⟩

/-- Removing takes away what stands at the place, and that is no directory. -/
theorem remove_stands (h : t.remove path = .ok t') :
    t' = t.unbind p ∧ t.node? p ≠ some .directory := remove_named hstands.named h

/-- A stamp changes the time of the file at the place. -/
theorem stamp_stands (h : t.stamp path modified = .ok t') :
    ∃ contents m, t.node? p = some (.file contents m) ∧ t' = t.bind p (.file contents modified) := by
  unfold stamp at h
  split at h
  · cases h
  · next v slash hlocate =>
    obtain ⟨rfl, -⟩ := hstands.reaches hlocate
    split at h <;> cases h
    next contents m hnode => exact ⟨contents, m, hnode, rfl⟩

/-- Moving takes what stands at one place to another one, where no directory stands. -/
theorem move_stands (hother : t.Stands B other q) (h : t.move other path = .ok t') :
    ∃ n, t.node? q = some n ∧ n ≠ .directory ∧ t' = (t.unbind q).bind p n ∧
      t.node? p ≠ some .directory ∧ t.Reaches A path p := by
  obtain ⟨n, hn, hdir, ht, hpdir, hreaches, -⟩ := move_named hstands.named hother.named h
  exact ⟨n, hn, hdir, ht, hpdir, hreaches⟩

/-- What is removed as a directory stands at the place and holds nothing. -/
theorem removeDirectory_stands (h : t.removeDirectory path = .ok t') :
    t' = t.unbind p ∧ t.node? p = some .directory ∧ t.listBelow p = [] := by
  obtain ⟨v, slash, hlocate, hnode, hempty, ht'⟩ := exists_of_removeDirectory h
  obtain ⟨rfl, -⟩ := hstands.bare.reaches hlocate
  exact ⟨ht', hnode, hempty⟩

/-- What stands at a place that is reached is seen. -/
theorem look_eq (hreaches : t.Reaches A path p) (hends : Ends path p) {n : Node}
    (hnode : t.node? p = some n) : t.look false path = .ok n := by
  have hlocate := hreaches.locate hends hstands.plain false
  simp only [look, hlocate, hnode]

/-- A file at a place that is reached is removed. -/
theorem remove_eq (hreaches : t.Reaches A path p) (hends : Ends path p) {m : Instant}
    (hnode : t.node? p = some (.file contents m)) : t.remove path = .ok (t.unbind p) := by
  have hlocate := hreaches.locate hends hstands.plain false
  simp only [remove, hlocate, hnode]

/-- A file at a place that is reached is moved to another one that is reached, if no directory stands there. -/
theorem move_eq (hreaches : t.Reaches A path p) (hends : Ends path p) (hother : t.Stands B other q)
    (hreaches' : t.Reaches B other q) (hends' : Ends other q) {m : Instant}
    (hnode : t.node? q = some (.file contents m)) (hdir : t.node? p ≠ some .directory) :
    t.move other path = .ok ((t.unbind q).bind p (.file contents m)) := by
  have hlocate := hreaches.locate hends hstands.plain false
  have hlocate' := hreaches'.locate hends' hother.plain false
  simp only [move, hlocate', hnode, hlocate, hends.not_endsWith hreaches, Bool.false_eq_true, ↓reduceIte]

/-- An empty directory at a place that is reached is removed. -/
theorem removeDirectory_eq (hreaches : t.Reaches A path p) {segs : List String} {name : String}
    (hsegs : DiskPath.segments path = segs ++ [name]) (hname : DiskPath.IsName name)
    (hnode : t.node? p = some .directory) (hempty : t.listBelow p = []) :
    t.removeDirectory path = .ok (t.unbind p) := by
  have hlocate := hreaches.locate_directory hnode false
  have hbare : bare path = path := DiskPath.bare_eq_self hsegs hname.ne_empty
  have hdot : name ≠ "." := by
    rintro rfl
    exact absurd hname.counts (by decide)
  simp only [removeDirectory, hbare, hlocate, hnode, hsegs, List.getLast?_concat, hempty,
    List.isEmpty_nil, ↓reduceIte]
  split
  · next heq => simp at heq; exact absurd heq hdot
  · next heq => simp at heq; exact absurd heq hname.up
  · simp [hstands.ne_root]

end Stands

end FileTree

end LayeredBundles
