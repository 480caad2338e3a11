import LayeredBundles.Proofs.Artifacts

/-! # Trees without links

Where there are no links, a path leads where its text says: every name one place down, every `..` one place up. So what
an operation may change can be told from the paths it is given, whatever stands in the tree.

* **`DiskPath.placeFrom`** — the place that a path names by its text;
* **`FileTree.LinkFree.locate_eq`** — a path that is located leads to that place;
* **`FileTree.Alters`** — a change of the tree that a permission covers, node by node;
* **`Workspace.Obeys`** — every change on the way from one workspace to another is covered. -/

namespace LayeredBundles

/-! ## (1) Places by text -/

namespace DiskPath

/-- Where steps lead from a place by their text. -/
def walk (p : Place) (xs : List String) : Place := xs.foldl (fun p s => if s = ".." then p.dropLast else p ++ [s]) p

/-- Steps are walked one part after the other. -/
theorem walk_append (p : Place) (xs ys : List String) : walk p (xs ++ ys) = walk (walk p xs) ys := List.foldl_append

/-- Names lead straight down. -/
theorem walk_names {names : List String} (h : ∀ s ∈ names, s ≠ "..") (p : Place) : walk p names = p ++ names := by
  induction names generalizing p with
  | nil => simp [walk]
  | cons s names ih =>
    have hs : s ≠ ".." := h s (by simp)
    rw [walk, List.foldl_cons, if_neg hs]
    exact (ih (fun s' hs' => h s' (List.mem_cons_of_mem _ hs')) (p ++ [s])).trans (by simp)

/-- Where a path begins, if relative paths begin at `base`. -/
def startFrom (base : Place) (path : String) : Place := if isAbsolute path then [] else base

/-- The place that a path names by its text. -/
def placeFrom (base : Place) (path : String) : Place := walk (startFrom base path) (steps path)

/-- `Above base path v`: the place of a path by its text, or of a path that it stands below. -/
def Above (base : Place) (path : String) (v : Place) : Prop :=
  ∃ xs, xs <+: steps path ∧ v = walk (startFrom base path) xs

variable {base : Place} {path front : String}

/-- A slash at the end does not change what a path names. -/
theorem placeFrom_bare (base : Place) (path : String) : placeFrom base (FileTree.bare path) = placeFrom base path := by
  rw [placeFrom, placeFrom, startFrom, startFrom, steps_bare, isAbsolute_bare]

/-- The place of a path is among those that are made with it. -/
theorem above_self (base : Place) (path : String) : Above base path (placeFrom base path) :=
  ⟨_, List.prefix_refl _, rfl⟩

/-- What a path in front stands below, the path stands below. -/
theorem Above.of_front (hsteps : steps front <+: steps path) (habs : isAbsolute front = isAbsolute path) {v : Place}
    (h : Above base front v) : Above base path v := by
  obtain ⟨xs, hxs, rfl⟩ := h
  exact ⟨xs, hxs.trans hsteps, by rw [startFrom, startFrom, habs]⟩

/-- The steps of the path in front, and where it begins. -/
theorem prefix_of_parent (h : parent? path = some front) :
    steps front <+: steps path ∧ isAbsolute front = isAbsolute path := by
  rcases List.eq_nil_or_concat (steps path) with hnil | ⟨xs, name, hsteps⟩
  · -- Without a step only a path that begins with a `.` has one in front of it, and that is empty.
    have htrim : trimEnd (lead path).2 = [] := by
      have hfilter := filter_lead path
      rw [hnil] at hfilter
      rw [trimEnd_eq, List.rdropWhile_eq_nil_iff]
      exact fun s hs => by simpa using List.filter_eq_nil_iff.1 hfilter s hs
    rcases hlead : lead path with ⟨start, segs⟩
    rw [hlead] at htrim
    rw [parent?, hlead] at h
    simp only [htrim, List.reverse_nil] at h
    split at h
    · next hstart =>
      cases h
      refine ⟨by simp [hnil], ?_⟩
      have habs : isAbsolute path = false := by
        by_contra habs
        rw [Bool.not_eq_false] at habs
        rw [lead, if_pos habs, hstart] at hlead
        exact absurd (Prod.mk.inj hlead).1 (by decide)
      rw [habs]
      decide
    · cases h
  · rw [List.concat_eq_append] at hsteps
    obtain ⟨front', hfront, hxs, habs⟩ := exists_parent hsteps
    cases hfront.symm.trans h
    rw [hxs, hsteps]
    exact ⟨List.prefix_append _ _, habs⟩

/-- What a path stands below takes its first steps. -/
theorem prefix_of_mem_lineage {p : String} (h : p ∈ lineage path) :
    steps p <+: steps path ∧ isAbsolute p = isAbsolute path := by
  -- The lineage is that of the path in front, with the path itself.
  have hcount : ∀ count path, p ∈ lineageUpTo count path → steps p <+: steps path ∧ isAbsolute p = isAbsolute path := by
    intro count
    induction count with
    | zero =>
      intro path h
      cases h
    | succ count ih =>
      intro path h
      rw [lineageUpTo] at h
      rcases List.mem_cons.1 h with rfl | h
      · exact ⟨List.prefix_refl _, rfl⟩
      · split at h
        · next front hfront =>
          obtain ⟨hsteps, habs⟩ := prefix_of_parent hfront
          exact (ih front h).imp (fun hpre => hpre.trans hsteps) fun heq => heq.trans habs
        · cases h
  exact hcount _ _ h

/-- **All that a path stands below**, by text. -/
theorem above_of_mem_lineage {p : String} (h : p ∈ lineage path) : Above base path (placeFrom base p) := by
  obtain ⟨hsteps, habs⟩ := prefix_of_mem_lineage h
  exact (above_self base p).of_front hsteps habs

end DiskPath

namespace FileTree

open DiskPath

variable {t t' : FileTree} {path other : String} {p v : Place} {th : Bool}

/-! ## (2) Following paths -/

/-- A tree without links. -/
def LinkFree (t : FileTree) : Prop := ∀ v target, t.node? v ≠ some (.link target)

/-- A tree is without links if all that it holds is directories and files. -/
theorem linkFree_of_nodes (h : ∀ e ∈ t.nodes, (e.2.isDirectory || e.2.isFile) = true) : t.LinkFree := by
  intro v target hlink
  by_cases hv : v = []
  · simp [hv] at hlink
  · rw [node?, if_neg hv] at hlink
    cases h _ (Table.mem_of_find? hlink)

/-- Without links, steps lead where their text says. -/
theorem LinkFree.leads (h : t.LinkFree) (dir : Place) (xs : List String) :
    Leads t (fun _ => True) 0 dir xs (walk dir xs) := by
  induction xs generalizing dir with
  | nil => exact .here
  | cons s xs ih =>
    rw [walk, List.foldl_cons]
    split
    · next hup =>
      subst hup
      exact .up (ih _)
    · next hup => exact .down hup trivial (h _) (ih _)

/-- **Without links a path is followed step by step**, and leads where it is written to lead. -/
theorem LinkFree.follow_eq (h : t.LinkFree) {dir : Place} {segs : List String} {a : Arrival}
    (hok : t.follow th dir segs = .ok a) : ∃ slash, a = .place (walk dir (segs.filter counts)) slash := by
  induction segs generalizing dir with
  | nil =>
    cases hok
    exact ⟨false, rfl⟩
  | cons s rest ih =>
    rw [follow] at hok
    by_cases hcounts : counts s = true
    -- A step that counts: up, or down to what stands there, of which there are no links.
    · rw [List.filter_cons_of_pos hcounts, walk, List.foldl_cons]
      rw [hcounts] at hok
      simp only [Bool.not_true, Bool.false_eq_true, ↓reduceIte] at hok
      split at hok
      · next hup =>
        rw [if_pos hup]
        exact ih hok
      · next hup =>
        rw [if_neg hup]
        split at hok
        · cases hok
        · split at hok
          · exact ih hok
          · split at hok
            · next hrest =>
              cases hok
              rw [List.isEmpty_iff.1 hrest]
              exact ⟨false, rfl⟩
            · cases hok
          · next target hnode => exact absurd hnode (h _ target)
          · split at hok
            · next hrest =>
              cases hok
              have hnil : rest.filter counts = [] := List.filter_eq_nil_iff.2 fun x hx => by
                have hempty : x = "" := of_decide_eq_true (List.all_eq_true.1 hrest x hx)
                subst hempty
                decide
              rw [hnil]
              exact ⟨_, rfl⟩
            · cases hok
    · rw [List.filter_cons_of_neg hcounts]
      rw [Bool.not_eq_true] at hcounts
      rw [hcounts] at hok
      exact ih hok

/-- **A path that is located leads where its text says.** -/
theorem LinkFree.locate_eq (h : t.LinkFree) {slash : Bool} (hok : t.locate th path = .ok (p, slash)) :
    p = placeFrom t.base path := by
  rw [(clean_of_locate hok).locate_eq, followLinks_eq] at hok
  split at hok
  · cases hok
  · next p' slash' hfollow =>
    cases hok
    obtain ⟨_, heq⟩ := h.follow_eq hfollow
    cases heq
    rfl
  · next start segs hfollow =>
    obtain ⟨_, heq⟩ := h.follow_eq hfollow
    cases heq

/-! ## (3) Changes -/

/-- A **permission** tells which changes of the node at a place are covered. -/
abbrev Permission := Place → Option Node → Option Node → Prop

/-- Whatever is put at a place is covered, unless it is a link. -/
def Permission.Owns (P : Permission) (v : Place) : Prop :=
  ∀ old new, (∀ target, new ≠ some (.link target)) → P v old new

/-- A new directory at a place is covered. -/
def Permission.Makes (P : Permission) (v : Place) : Prop := P v none (some .directory)

/-- What may be changed in any way may be made. -/
theorem Permission.Owns.makes {P : Permission} (h : P.Owns v) : P.Makes v := h _ _ (by simp)

/-- `t.Alters P t'`: every difference between the trees is covered, and there are no links in the second one. -/
structure Alters (P : Permission) (t t' : FileTree) : Prop where
  /-- There are no links. -/
  plain : t'.LinkFree
  /-- Relative paths begin where they began. -/
  base : t'.base = t.base
  /-- What stands at each place. -/
  node : ∀ v, t'.node? v = t.node? v ∨ P v (t.node? v) (t'.node? v)

variable {P : Permission}

/-- A change of places that are owned. -/
theorem LinkFree.alters (h : t.LinkFree) (hbase : t'.base = t.base)
    (hnode : ∀ v, t'.node? v = t.node? v ∨ P.Owns v ∧ ∀ target, t'.node? v ≠ some (.link target)) : Alters P t t' := by
  refine ⟨fun v target hlink => ?_, hbase, fun v => ?_⟩
  · rcases hnode v with hsame | ⟨-, hplain⟩
    · exact h v target (hsame ▸ hlink)
    · exact hplain target hlink
  · exact (hnode v).imp id fun ⟨howns, hplain⟩ => howns _ _ hplain

/-- Putting something at a place leaves the other places alone. -/
theorem node?_bind_of_ne (t : FileTree) (n : Node) (hv : v ≠ p) : (t.bind p n).node? v = t.node? v := by
  by_cases hp : p = []
  · subst hp
    simp [node?, hv, bind, Table.find?_insert_of_ne hv]
  · rw [node?_bind t hp, if_neg hv]

/-- So does taking away what stands at a place. -/
theorem node?_unbind_of_ne (t : FileTree) (hv : v ≠ p) : (t.unbind p).node? v = t.node? v := by
  by_cases hp : p = []
  · subst hp
    simp [node?, hv, unbind, Table.find?_erase]
  · rw [node?_unbind t hp, if_neg hv]

/-- What was put at a place stands there, unless the place is the root, which stays a directory. -/
theorem node?_bind_self (t : FileTree) (p : Place) (n : Node) :
    (t.bind p n).node? p = some .directory ∨ (t.bind p n).node? p = some n := by
  by_cases hp : p = []
  · exact .inl (by simp [hp])
  · exact .inr (by rw [node?_bind t hp, if_pos rfl])

/-- Of what is taken away nothing is left, unless it was the root. -/
theorem node?_unbind_or (t : FileTree) (p v : Place) :
    (t.unbind p).node? v = t.node? v ∨ v = p ∧ (t.unbind p).node? v = none := by
  by_cases hv : v = p
  · subst hv
    by_cases hroot : v = []
    · exact .inl (by simp [hroot])
    · exact .inr ⟨rfl, by rw [node?_unbind t hroot, if_pos rfl]⟩
  · exact .inl (node?_unbind_of_ne t hv)

/-- Putting a file or a directory at a place of one's own is a permitted change. -/
theorem LinkFree.alters_bind (h : t.LinkFree) (hp : P.Owns p) {n : Node} (hn : ∀ target, n ≠ .link target) :
    Alters P t (t.bind p n) := by
  refine h.alters rfl fun v => ?_
  by_cases hv : v = p
  · subst hv
    refine .inr ⟨hp, fun target hlink => ?_⟩
    rcases node?_bind_self t v n with heq | heq
    · cases heq.symm.trans hlink
    · exact hn target (Option.some.inj (heq.symm.trans hlink))
  · exact .inl (node?_bind_of_ne t n hv)

/-- Taking something away makes no link. -/
theorem LinkFree.unbind (h : t.LinkFree) (p : Place) : (t.unbind p).LinkFree := by
  intro v target hlink
  rcases node?_unbind_or t p v with hsame | ⟨-, hnone⟩
  · exact h v target (hsame ▸ hlink)
  · cases hnone.symm.trans hlink

/-- Taking away what stands at a place of one's own is a permitted change. -/
theorem LinkFree.alters_unbind (h : t.LinkFree) (hp : P.Owns p) : Alters P t (t.unbind p) := by
  refine h.alters rfl fun v => (node?_unbind_or t p v).imp_right fun ⟨hv, hnone⟩ => ⟨hv ▸ hp, ?_⟩
  simp [hnone]

/-- So is taking away all below a place, if all of it is one's own. -/
theorem LinkFree.alters_unbindBelow (h : t.LinkFree) (hp : ∀ v, isBelow p v = true → P.Owns v) :
    Alters P t (t.unbindBelow p) := by
  refine h.alters rfl fun v => ?_
  by_cases hv : v = []
  · exact .inl (by simp [hv])
  · rw [node?_unbindBelow t p v hv]
    split
    · next hbelow => exact .inr ⟨hp v hbelow, by simp⟩
    · exact .inl rfl

/-- Things are taken away one after another. -/
theorem node?_unbindAll {α : Type} (place : α → Place) (xs : List α) (t : FileTree) :
    (xs.foldl (fun t x => t.unbind (place x)) t).base = t.base ∧
      ∀ v, (xs.foldl (fun t x => t.unbind (place x)) t).node? v = t.node? v ∨
        (∃ x ∈ xs, v = place x) ∧ (xs.foldl (fun t x => t.unbind (place x)) t).node? v = none := by
  induction xs generalizing t with
  | nil => exact ⟨rfl, fun _ => .inl rfl⟩
  | cons x xs ih =>
    obtain ⟨hbase, hnode⟩ := ih (t.unbind (place x))
    refine ⟨hbase, fun v => ?_⟩
    rw [List.foldl_cons]
    rcases hnode v with hsame | ⟨⟨y, hy, hv⟩, hnone⟩
    · rw [hsame]
      exact (node?_unbind_or t (place x) v).imp_right fun ⟨hv, hnone⟩ => ⟨⟨x, by simp, hv⟩, hnone⟩
    · exact .inr ⟨⟨y, List.mem_cons_of_mem _ hy, hv⟩, hnone⟩

/-- So is taking away one thing after another. -/
theorem LinkFree.alters_unbindAll {α : Type} (h : t.LinkFree) {place : α → Place} {xs : List α}
    (hxs : ∀ x ∈ xs, P.Owns (place x)) : Alters P t (xs.foldl (fun t x => t.unbind (place x)) t) := by
  obtain ⟨hbase, hnode⟩ := node?_unbindAll place xs t
  refine h.alters hbase fun v => (hnode v).imp_right fun ⟨⟨x, hx, hv⟩, hnone⟩ => ⟨hv ▸ hxs x hx, ?_⟩
  simp [hnone]

/-! ## (4) Operations -/

section Operations

variable (h : t.LinkFree)

include h

/-- Creating a directory where one may be made is a permitted change. -/
theorem LinkFree.createDirectory_alters (hp : P.Makes (placeFrom t.base path))
    (hok : t.createDirectory path = .ok t') : Alters P t t' := by
  unfold createDirectory at hok
  split at hok
  · cases hok
  · next q slash hlocate =>
    have hq := h.locate_eq hlocate
    rw [placeFrom_bare] at hq
    split at hok
    · cases hok
    · next hnone =>
      cases hok
      refine ⟨(h.alters_bind (P := fun _ _ _ => True) (fun _ _ _ => trivial) (by simp)).plain, rfl, fun v => ?_⟩
      by_cases hv : v = q
      · subst hv
        rcases node?_bind_self t v .directory with heq | heq <;> exact .inr (by rw [hnone, heq, hq]; exact hp)
      · exact .inl (node?_bind_of_ne t _ hv)

/-- Without links a file is located where its path is written to lead. -/
theorem LinkFree.locateFile_eq {n : Option Node} (hok : t.locateFile path = .ok (p, n)) :
    p = placeFrom t.base path := by
  obtain ⟨slash, hlocate, -⟩ := exists_of_locateFile hok
  exact h.locate_eq hlocate

/-- Writing to a path of one's own is a permitted change. -/
theorem LinkFree.write_alters (hp : P.Owns (placeFrom t.base path)) {contents : ByteArray} {modified : Instant}
    (hok : t.write path contents modified = .ok t') : Alters P t t' := by
  unfold write at hok
  split at hok
  · cases hok
  · next q n hlocate =>
    cases hok
    exact h.alters_bind (h.locateFile_eq hlocate ▸ hp) (by simp)

/-- So is making sure that a file stands there. -/
theorem LinkFree.ensureFile_alters (hp : P.Owns (placeFrom t.base path)) {modified : Instant}
    (hok : t.ensureFile path modified = .ok (p, t')) : Alters P t t' := by
  unfold ensureFile at hok
  split at hok
  · cases hok
  · cases hok
    exact h.alters rfl fun _ => .inl rfl
  · next q hlocate =>
    cases hok
    exact h.alters_bind (h.locateFile_eq hlocate ▸ hp) (by simp)

/-- So is setting its time. -/
theorem LinkFree.stamp_alters (hp : P.Owns (placeFrom t.base path)) {modified : Instant}
    (hok : t.stamp path modified = .ok t') : Alters P t t' := by
  unfold stamp at hok
  split at hok
  · cases hok
  · next q slash hlocate =>
    split at hok <;> cases hok
    exact h.alters_bind (h.locate_eq hlocate ▸ hp) (by simp)

/-- So is removing it. -/
theorem LinkFree.remove_alters (hp : P.Owns (placeFrom t.base path)) (hok : t.remove path = .ok t') :
    Alters P t t' := by
  unfold remove at hok
  split at hok
  · cases hok
  · next q slash hlocate =>
    split at hok
    · cases hok
    · cases hok
    · cases hok
      exact h.alters_unbind (h.locate_eq hlocate ▸ hp)

/-- So is removing an empty directory of one's own. -/
theorem LinkFree.removeDirectory_alters (hp : P.Owns (placeFrom t.base path))
    (hok : t.removeDirectory path = .ok t') : Alters P t t' := by
  unfold removeDirectory at hok
  split at hok
  · cases hok
  · next q slash hlocate =>
    have hq := h.locate_eq hlocate
    rw [placeFrom_bare] at hq
    split at hok
    · cases hok
    · split at hok
      · cases hok
      · cases hok
      · split at hok
        · cases hok
        · split at hok <;> cases hok
          exact h.alters_unbind (hq ▸ hp)
    · cases hok

/-- So is moving a file between two paths of one's own. -/
theorem LinkFree.move_alters (hp : P.Owns (placeFrom t.base path)) (hother : P.Owns (placeFrom t.base other))
    (hok : t.move other path = .ok t') : Alters P t t' := by
  obtain ⟨q, slash, n, q', slash', hlocate, hnode, -, hlocate', -, -, rfl⟩ := exists_of_move hok
  have hq := h.locate_eq hlocate
  have hq' := h.locate_eq hlocate'
  -- The thing is at the second place now, and nothing at the first one.
  have hbind : Alters (fun _ _ _ => True) (t.unbind q) ((t.unbind q).bind q' n) :=
    (h.unbind q).alters_bind (fun _ _ _ => trivial) fun target heq => h q target (heq ▸ hnode)
  refine h.alters rfl fun v => ?_
  by_cases hv' : v = q'
  · exact .inr ⟨hv' ▸ hq' ▸ hp, hbind.plain v⟩
  · by_cases hv : v = q
    · exact .inr ⟨hv ▸ hq ▸ hother, hbind.plain v⟩
    · exact .inl ((node?_bind_of_ne _ n hv').trans (node?_unbind_of_ne t hv))

end Operations

end FileTree

namespace Workspace

open FileTree Fallible DiskPath

variable {P : Permission} {w₀ w w' : Workspace} {path other : String}

/-! ## (5) Workspaces -/

/-- The trees that a workspace has had, the last one first. -/
def trees (w : Workspace) : List FileTree := w.tree :: w.past

/-- `w.Obeys P w₀`: `w` came of `w₀` by changes that are covered, each of them, and no link was made. -/
structure Obeys (P : Permission) (w₀ w : Workspace) : Prop where
  /-- There are no links. -/
  plain : w.tree.LinkFree
  /-- Relative paths begin where they began. -/
  base : w.tree.base = w₀.tree.base
  /-- The process is the same. -/
  process : w.process = w₀.process
  /-- The trees on the way. -/
  trees : ∃ new, w.trees = new ++ w₀.trees ∧
    (new ++ [w₀.tree]).IsChain fun later earlier => earlier.Alters P later

/-- A workspace without links that stays as it is obeys any permission. -/
theorem Obeys.refl (P : Permission) (h : w.tree.LinkFree) : Obeys P w w :=
  ⟨h, rfl, rfl, [], rfl, .singleton _⟩

/-- One more change. -/
theorem Obeys.withTree (h : Obeys P w₀ w) {t : FileTree} (halters : w.tree.Alters P t) : Obeys P w₀ (w.withTree t) := by
  obtain ⟨new, htrees, hchain⟩ := h.trees
  refine ⟨halters.plain, halters.base.trans h.base, h.process, t :: new, by rw [List.cons_append, ← htrees]; rfl, ?_⟩
  -- The change is the last one in the list of trees, which is not empty if there was one before.
  cases new with
  | nil =>
    have heq : w.tree = w₀.tree := (List.cons.inj htrees).1
    exact List.isChain_cons_cons.2 ⟨heq ▸ halters, hchain⟩
  | cons t' new =>
    have heq : w.tree = t' := (List.cons.inj htrees).1
    exact List.isChain_cons_cons.2 ⟨heq ▸ halters, hchain⟩

/-- What is no tree does not matter. -/
theorem Obeys.congr (h : Obeys P w₀ w) (htrees : w'.trees = w.trees) (hprocess : w'.process = w.process) :
    Obeys P w₀ w' := by
  have htree : w'.tree = w.tree := (List.cons.inj htrees).1
  exact ⟨htree ▸ h.plain, htree ▸ h.base, hprocess.trans h.process, htrees ▸ h.trees⟩

/-- A change of the tree obeys a permission if it is a permitted change of every tree without links. -/
theorem change_obeys {f : FileTree → Except FileError FileTree}
    (hf : ∀ t t', t.LinkFree → t.base = w₀.tree.base → f t = .ok t' → t.Alters P t') :
    (change f).Preserves (Obeys P w₀) := by
  intro w hw
  rw [Yields, outcome_change]
  split
  · next t ht => exact hw.withTree (hf _ _ hw.plain hw.base ht)
  · exact hw

/-- To look at the tree obeys any permission. -/
theorem ask_obeys {α : Type} (f : FileTree → Except FileError α) : (ask f).Preserves (Obeys P w₀) := fun _ hw => hw

/-- Writing a file of one's own obeys the permission, also when the disk refuses. -/
theorem write_obeys (hpath : P.Owns (placeFrom w₀.tree.base path)) (contents : ByteArray) :
    (write path contents).Preserves (Obeys P w₀) := fun w hw =>
  change_obeys (fun _ _ ht hbase hok => ht.write_alters (hbase ▸ hpath) hok) w hw

/-- So does removing it. -/
theorem remove_obeys (hpath : P.Owns (placeFrom w₀.tree.base path)) : (remove path).Preserves (Obeys P w₀) :=
  change_obeys fun _ _ ht hbase hok => ht.remove_alters (hbase ▸ hpath) hok

/-- So does discarding it, whether it stands or not. -/
theorem discard_obeys {ε : Type} (hpath : P.Owns (placeFrom w₀.tree.base path)) :
    (discard path : Work ε Unit).Preserves (Obeys P w₀) :=
  (remove_obeys hpath).attempt.bind fun _ => preserves_pure ()

/-- So does moving a file between two paths of one's own. -/
theorem move_obeys (hpath : P.Owns (placeFrom w₀.tree.base path)) (hother : P.Owns (placeFrom w₀.tree.base other)) :
    (move other path).Preserves (Obeys P w₀) := by
  intro w hw
  obtain ⟨held, hmove⟩ := outcome_move other path w
  rw [Yields, hmove]
  split
  · next t ht =>
    have hheld : Obeys P w₀ { w with held } := hw.congr rfl rfl
    exact hheld.withTree (hw.plain.move_alters (hw.base ▸ hpath) (hw.base ▸ hother) ht)
  · exact hw

/-- So does creating a directory where one may be made. -/
theorem createDirectory_obeys (hpath : P.Makes (placeFrom w₀.tree.base path)) :
    (change (·.createDirectory path)).Preserves (Obeys P w₀) :=
  change_obeys fun _ _ ht hbase hok => ht.createDirectory_alters (hbase ▸ hpath) hok

/-- So does creating directories one below the other. -/
theorem createLineage_obeys {paths : List String} (h : ∀ p ∈ paths, P.Makes (placeFrom w₀.tree.base p)) :
    (createLineage paths).Preserves (Obeys P w₀) :=
  preserves_createLineage fun p hp => createDirectory_obeys (h p hp)

/-- **Creating directories** creates them only where the path stands, and what it stands below. -/
theorem createDirectories_obeys (h : ∀ v, Above w₀.tree.base path v → P.Makes v) :
    (createDirectories path).Preserves (Obeys P w₀) :=
  createLineage_obeys fun _ hp => h _ (above_of_mem_lineage hp)

/-- **Removing a directory** removes it and what is below it. -/
theorem removeDirectories_obeys (hpath : P.Owns (placeFrom w₀.tree.base path))
    (hbelow : ∀ v, isBelow (placeFrom w₀.tree.base path) v = true → P.Owns v) :
    (removeDirectories path).Preserves (Obeys P w₀) := by
  have hempty : (emptyDirectory path).Preserves (Obeys P w₀) := by
    refine change_obeys fun t t' ht hbase hok => ?_
    split at hok
    · cases hok
    · next p slash hlocate =>
      have hp := ht.locate_eq hlocate
      cases hok
      exact ht.alters_unbindBelow fun v hv => hbelow v (hbase ▸ hp ▸ hv)
  exact preserves_removals (remove_obeys hpath) hempty
    (change_obeys fun _ _ ht hbase hok => ht.removeDirectory_alters (hbase ▸ hpath) hok)

end Workspace

end LayeredBundles
