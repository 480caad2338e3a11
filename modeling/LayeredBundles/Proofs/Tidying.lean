import LayeredBundles.Proofs.Confined

/-! # Tidying a directory

A check of the build only takes away below the directory, and writes to a few files elsewhere. The links there stay,
but for those among the files that it puts in each other's place.

* **`FileTree.SameLinks`** — the links are the same;
* **`FileTree.Steady`** — no links are new, and those outside a directory are the same, but at some places;
* **`FileTree.Clears`**, **`FileTree.Writes`**, **`FileTree.Tidies`** — what may be gone, and what may be written;
* **`Extraction.removeTemporaries_yields`**, **`Extraction.removeAll_yields`** — what is extracted is cleared. -/

namespace LayeredBundles

namespace FileTree

variable {t t' t'' : FileTree} {A : Place → Prop} {F G K : Place → Prop} {d p q : Place} {path : String}

/-! ## (1) Changes of the tree -/

/-- `t.SameLinks t'`: the links of both trees are the same, and relative paths begin at the same place. -/
structure SameLinks (t t' : FileTree) : Prop where
  /-- Relative paths begin where they began. -/
  base : t'.base = t.base
  /-- The links. -/
  link_iff : ∀ v target, t'.node? v = some (.link target) ↔ t.node? v = some (.link target)

/-- What has the same links twice has the same links. -/
theorem SameLinks.trans (h : SameLinks t t') (h' : SameLinks t' t'') : SameLinks t t'' :=
  ⟨h'.base.trans h.base, fun v target => (h'.link_iff v target).trans (h.link_iff v target)⟩

/-- Adding directories adds no link. -/
theorem Adds.sameLinks (h : Adds t t') : SameLinks t t' := ⟨h.base, h.link_iff⟩

/-- Paths name the same places where the links are the same. -/
theorem SameLinks.named (h : SameLinks t t') (hnamed : t.Named A path p) : t'.Named A path p :=
  hnamed.congr h.base (fun v target _ => h.link_iff v target) fun target hlink =>
    hnamed.ends target ((h.link_iff p target).1 hlink)

/-- Places resolve to the same ones. -/
theorem SameLinks.resolves (h : SameLinks t t') (hleads : t.Resolves A p q) : t'.Resolves A p q :=
  hleads.congr (h.link_iff p) fun v target _ => h.link_iff v target

/-- What a path may pass: outside `d` anything, and no links at or below it. -/
def Unlinked (t : FileTree) (d v : Place) : Prop := d <+: v → ∀ target, t.node? v ≠ some (.link target)

/-- `t.Steady d K t'`: but for places of `K`, no links are new, and those outside `d` are the same. -/
structure Steady (d : Place) (K : Place → Prop) (t t' : FileTree) : Prop where
  /-- Relative paths begin where they began. -/
  base : t'.base = t.base
  /-- No links are new. -/
  fewer : ∀ v target, ¬ K v → t'.node? v = some (.link target) → t.node? v = some (.link target)
  /-- Outside, all links stay. -/
  outside : ∀ v target, Outside d v → ¬ K v → t.node? v = some (.link target) → t'.node? v = some (.link target)

/-- A tree that stays as it is is steady. -/
theorem Steady.refl (d : Place) (K : Place → Prop) (t : FileTree) : Steady d K t t :=
  ⟨rfl, fun _ _ _ => id, fun _ _ _ _ => id⟩

/-- What is steady twice is steady. -/
theorem Steady.trans (h : Steady d K t t') (h' : Steady d K t' t'') : Steady d K t t'' :=
  ⟨h'.base.trans h.base, fun v target hv hlink => h.fewer v target hv (h'.fewer v target hv hlink),
    fun v target hout hv hlink => h'.outside v target hout hv (h.outside v target hout hv hlink)⟩

/-- What is steady but for some places is so but for more. -/
theorem Steady.mono (h : Steady d K t t') (hK : ∀ v, K v → G v) : Steady d G t t' :=
  ⟨h.base, fun v target hv => h.fewer v target fun hKv => hv (hK v hKv),
    fun v target hout hv => h.outside v target hout fun hKv => hv (hK v hKv)⟩

/-- At a place that paths may pass, the links are the same. -/
theorem Steady.link_iff (hs : Steady d K t t') {v : Place} (hv : t.Unlinked d v) (hK : ¬ K v) (target : String) :
    t'.node? v = some (.link target) ↔ t.node? v = some (.link target) :=
  ⟨hs.fewer v target hK, fun hlink => hs.outside v target (fun hd => hv hd target hlink) hK hlink⟩

/-- What paths may pass before, they may pass after. -/
theorem Steady.unlinked (hs : Steady d K t t') {v : Place} (hv : t.Unlinked d v) (hK : ¬ K v) : t'.Unlinked d v :=
  fun hd target hlink => hv hd target (hs.fewer v target hK hlink)

/-- A directory without links stays one. -/
theorem Steady.plain (hs : Steady d K t t') (hK : ∀ v, K v → ¬ d <+: v) (h : t.Plain p) (hp : d <+: p) : t'.Plain p :=
  fun v hv target hlink => h v hv target (hs.fewer v target (fun hKv => hK v hKv (hp.trans hv)) hlink)

/-- `t.Clears d t'`: some of what is at or below `d` is gone, but not a directory at `d` from above what it
holds. -/
structure Clears (d : Place) (t t' : FileTree) : Prop where
  /-- Relative paths begin where they began. -/
  base : t'.base = t.base
  /-- What is gone. -/
  node : ∀ v, t'.node? v = t.node? v ∨ d <+: v ∧ t'.node? v = none
  /-- The directory stays rooted. -/
  rooted : t.Rooted d → t'.Rooted d

/-- Outside the directory nothing is gone. -/
theorem Clears.node_outside (h : Clears d t t') {v : Place} (hv : Outside d v) : t'.node? v = t.node? v :=
  (h.node v).resolve_right fun hgone => hv hgone.1

/-- `t.Writes F K t'`: at places of `F` something may be written, or be gone, but links only at those of `K`. -/
structure Writes (F K : Place → Prop) (t t' : FileTree) : Prop where
  /-- What is changed. -/
  touches : Touches (fun v _ => F v) t t'
  /-- No directory is gone. -/
  directory : ∀ v, t.node? v = some .directory → t'.node? v = some .directory
  /-- The links. -/
  link_iff : ∀ v target, ¬ K v → (t'.node? v = some (.link target) ↔ t.node? v = some (.link target))

/-- Adding directories writes no file. -/
theorem Adds.writes (h : Adds t t') (F K : Place → Prop) : Writes F K t t' :=
  ⟨h.mono fun _ _ => False.elim, fun _ hv => h.node_of_some hv, fun v target _ => h.link_iff v target⟩

/-- To change nothing writes no file. -/
theorem Writes.refl (F K : Place → Prop) (t : FileTree) : Writes F K t t :=
  ⟨.refl _ t, fun _ h => h, fun _ _ _ => .rfl⟩

/-- Files written twice are written. -/
theorem Writes.trans (h : Writes F K t t') (h' : Writes F K t' t'') : Writes F K t t'' :=
  ⟨h.touches.trans (fun _ => id) h'.touches, fun v hv => h'.directory v (h.directory v hv),
    fun v target hv => (h'.link_iff v target hv).trans (h.link_iff v target hv)⟩

/-- What is written at some places is written at more. -/
theorem Writes.mono (h : Writes F K t t') (hF : ∀ v, F v → G v) : Writes G K t t' :=
  ⟨h.touches.mono fun v _ hv => hF v hv, h.directory, h.link_iff⟩

/-- Setting what is no directory writes there. -/
theorem Sets.writes {n : Option Node} (h : t.Sets p n t') (hp : F p) (hdir : t.node? p ≠ some .directory)
    (hlink : ¬ K p → ∀ target, t.node? p ≠ some (.link target) ∧ n ≠ some (.link target)) : Writes F K t t' := by
  refine ⟨⟨h.base, fun v => ?_⟩, fun v hv => ?_, fun v target hv => ?_⟩
  · rw [h.node]
    split
    · next hvp => exact .inr (.inr (hvp ▸ hp))
    · exact .inl rfl
  · rw [h.node, if_neg, hv]
    rintro rfl
    exact hdir hv
  · rw [h.node]
    split
    · next hvp =>
      subst hvp
      exact ⟨fun hn => absurd hn (hlink hv target).2, fun hn => absurd hn (hlink hv target).1⟩
    · rfl

/-- `Tidied d F v n`: below `d` something is gone, and it may have made way for a directory; at the places of `F`
anything may stand. -/
def Tidied (d : Place) (F : Place → Prop) (v : Place) (n : Option Node) : Prop :=
  d <+: v ∧ (n = none ∨ n = some .directory) ∨ F v

/-- `t.Tidies d F K t'`: at and below `d` things may be gone, and at the places of `F` there may be other files,
or links at those of `K`. -/
structure Tidies (d : Place) (F K : Place → Prop) (t t' : FileTree) : Prop where
  /-- What is changed. -/
  touches : Touches (Tidied d F) t t'
  /-- No directory outside is gone. -/
  directory : ∀ v, Outside d v → t.node? v = some .directory → t'.node? v = some .directory
  /-- The directory stays rooted. -/
  rooted : t.Rooted d → t'.Rooted d
  /-- The links. -/
  steady : Steady d K t t'

/-- Tidying twice is tidying. -/
theorem Tidies.trans (h : Tidies d F K t t') (h' : Tidies d F K t' t'') : Tidies d F K t t'' := by
  refine ⟨h.touches.trans (fun v hv => ?_) h'.touches, fun v hv hdir => h'.directory v hv (h.directory v hv hdir),
    fun hr => h'.rooted (h.rooted hr), h.steady.trans h'.steady⟩
  exact hv.imp (fun hd => ⟨hd.1, .inr rfl⟩) id

/-- What tidies with some files tidies with more. -/
theorem Tidies.mono {K' : Place → Prop} (h : Tidies d F K t t') (hF : ∀ v, F v → G v) (hK : ∀ v, K v → K' v) :
    Tidies d G K' t t' :=
  ⟨h.touches.mono fun v _ hv => hv.imp id (hF v), h.directory, h.rooted, h.steady.mono hK⟩

/-- Clearing a directory makes no link, and changes none elsewhere. -/
theorem Clears.steady (h : Clears d t t') (K : Place → Prop) : Steady d K t t' := by
  refine ⟨h.base, fun v target _ hlink => ?_, fun v target hout _ hlink => ?_⟩
  · rcases h.node v with hsame | ⟨-, hnone⟩
    · exact hsame ▸ hlink
    · rw [hnone] at hlink; cases hlink
  · exact (h.node_outside hout).trans hlink

/-- Clearing a directory tidies it. -/
theorem Clears.tidies (h : Clears d t t') (F K : Place → Prop) : Tidies d F K t t' :=
  ⟨⟨h.base, fun v => (h.node v).imp id fun hv => .inr (.inl ⟨hv.1, .inl hv.2⟩)⟩,
    fun _ hv hdir => (h.node_outside hv).trans hdir, h.rooted, h.steady K⟩

/-- Writing to files that are not below the directory keeps it rooted. -/
theorem Writes.tidies (h : Writes F K t t') (hF : ∀ v, F v → isBelow d v = false) : Tidies d F K t t' := by
  refine ⟨h.touches.mono fun _ _ hv => .inr hv, fun v _ => h.directory v, fun hr v n hv hnode hn =>
    h.directory d (hr v n hv ?_ hn), h.touches.base, fun v target hv => (h.link_iff v target hv).1,
    fun v target _ hv => (h.link_iff v target hv).2⟩
  rcases h.touches.node v with hsame | ⟨-, hdir⟩ | hFv
  · rw [← hsame, hnode]
  · rw [hdir] at hnode
    cases hnode
    exact absurd rfl hn
  · rw [hF v hFv] at hv
    cases hv

/-- Elsewhere, no file is new or changed. -/
theorem Tidies.file {v : Place} {c : ByteArray} {m : Instant} (h : Tidies d F K t t') (hv : ¬ F v)
    (hfile : t'.node? v = some (.file c m)) : t.node? v = some (.file c m) := by
  rcases h.touches.node v with hsame | ⟨-, hdir⟩ | ⟨-, hnone | hdir⟩ | hF
  · rw [← hsame, hfile]
  · rw [hdir] at hfile; cases hfile
  · rw [hnone] at hfile; cases hfile
  · rw [hdir] at hfile; cases hfile
  · exact absurd hF hv

end FileTree

open FileTree Fallible

/-! ## (2) What is extracted -/

namespace FileTree

variable {t t' : FileTree} {d p : Place}

/-- To change nothing clears a directory of nothing. -/
theorem Clears.refl (d : Place) (t : FileTree) : Clears d t t := ⟨rfl, fun _ => .inl rfl, id⟩

/-- A directory that is emptied holds nothing. -/
theorem clears_unbindBelow (t : FileTree) (d : Place) : Clears d t (t.unbindBelow d) := by
  refine ⟨rfl, fun v => ?_, fun _ v n hv hnode => ?_⟩
  · rw [node?_unbindBelow_eq]
    split
    · next h => exact .inr ⟨(isBelow_iff.1 h).1, rfl⟩
    · exact .inl rfl
  · rw [node?_unbindBelow_eq, if_pos hv] at hnode
    cases hnode

/-- A directory that is removed with all that it holds is cleared. -/
theorem clears_cleared (t : FileTree) (hd : d ≠ []) : Clears d t (t.cleared d) := by
  refine ⟨rfl, fun v => ?_, fun _ v n hv hnode => ?_⟩
  · rw [node?_cleared t hd]
    split
    · next h => exact .inr ⟨h, rfl⟩
    · exact .inl rfl
  · rw [node?_cleared t hd, if_pos (isBelow_iff.1 hv).1] at hnode
    cases hnode

/-- A place below `d`, or `d` itself if no directory stands there, is cleared. -/
theorem clears_unbind (t : FileTree) (hp : isBelow d p = true ∨ p = d ∧ p ≠ [] ∧ t.node? d ≠ some .directory) :
    Clears d t (t.unbind p) := by
  have hne : p ≠ [] := by
    rcases hp with hp | ⟨-, hp, -⟩
    · rintro rfl
      exact (isBelow_iff.1 hp).2 (List.prefix_nil.1 (isBelow_iff.1 hp).1).symm
    · exact hp
  refine ⟨rfl, fun v => ?_, fun hr v n hv hnode hn => ?_⟩
  · rw [node?_unbind t hne]
    split
    · next hvp =>
      refine .inr ⟨?_, rfl⟩
      rcases hp with hp | ⟨rfl, -⟩
      · exact hvp ▸ (isBelow_iff.1 hp).1
      · exact hvp ▸ List.prefix_refl _
    · exact .inl rfl
  · rw [node?_unbind t hne] at hnode ⊢
    split at hnode
    · cases hnode
    · have hdir := hr v n hv hnode hn
      rw [if_neg, hdir]
      rintro rfl
      rcases hp with hp | ⟨-, -, hp⟩
      · exact (isBelow_iff.1 hp).2 rfl
      · exact hp hdir

/-- Clearing twice is clearing. -/
theorem Clears.trans {t'' : FileTree} (h : Clears d t t') (h' : Clears d t' t'') : Clears d t t'' := by
  refine ⟨h'.base.trans h.base, fun v => ?_, fun hr => h'.rooted (h.rooted hr)⟩
  rcases h'.node v with hsame' | hgone'
  · rw [hsame']
    exact h.node v
  · exact .inr hgone'

/-- The files in a directory are below it, or one stands in its stead. -/
theorem mem_filesIn {A : Place → Prop} {dir : String} (hstands : t.Stands A dir d) {f : Place × String}
    (hf : f ∈ Extraction.filesIn t dir) : isBelow d f.1 = true ∨ f.1 = d ∧ t.node? d ≠ some .directory := by
  unfold Extraction.filesIn at hf
  split at hf
  · next hlook hlocate =>
    obtain ⟨rfl, -⟩ := hstands.reaches hlocate
    have hnode := (look_stands hstands hlook).1
    rw [List.mem_singleton] at hf
    subst hf
    exact .inr ⟨rfl, by simp [hnode]⟩
  · next hlocate =>
    obtain ⟨rfl, -⟩ := hstands.reaches hlocate
    obtain ⟨n, hn, hsome⟩ := List.mem_filterMap.1 hf
    split at hsome
    · cases hsome
      exact .inl (List.mem_filter.1 hn).2
    · cases hsome
  · cases hf

end FileTree

namespace Extraction

variable {w : Workspace} {t : FileTree} {dir : String} {d : Place}

/-- **Removing temporary files** clears the directory of some of its files. -/
theorem removeTemporaries_yields {A : Place → Prop} (hstands : w.tree.Stands A dir d) :
    (removeTemporaries dir).Yields w fun r w' => (∃ count, r = .ok count) ∧ w.Keeps w' ∧
      Clears d w.tree w'.tree := by
  unfold removeTemporaries
  rw [yields_get_bind]
  refine ⟨⟨_, rfl⟩, Workspace.keeps_withTree _ _, ?_⟩
  have hfold : ∀ (left : List (Place × String)) (t : FileTree), Clears d w.tree t →
      (∀ f ∈ left, isBelow d f.1 = true ∨ f.1 = d ∧ w.tree.node? d ≠ some .directory) →
      Clears d w.tree (left.foldl (fun t f => t.unbind f.1) t) := by
    intro left
    induction left with
    | nil => exact fun t ht _ => ht
    | cons f left ih =>
      intro t ht hleft
      refine ih _ (ht.trans (clears_unbind t ?_)) fun f' hf' => hleft f' (List.mem_cons_of_mem _ hf')
      refine (hleft f (by simp)).imp id fun ⟨hf, hdir⟩ => ⟨hf, hf ▸ hstands.ne_root, fun hdir' => ?_⟩
      rcases ht.node d with hsame | ⟨-, hnone⟩
      · exact hdir (hsame ▸ hdir')
      · rw [hnone] at hdir'; cases hdir'
  exact hfold _ _ (.refl d w.tree) fun f hf => mem_filesIn hstands (List.mem_filter.1 hf).1

/-- What a removed directory leaves: below `d` nothing but directories, and at `d` no link. -/
structure Bare (t : FileTree) (d : Place) : Prop where
  /-- Below it. -/
  directory : ∀ v n, isBelow d v = true → t.node? v = some n → n = .directory
  /-- There. -/
  plain : ∀ target, t.node? d ≠ some (.link target)

/-- Writing elsewhere leaves it bare. -/
theorem Bare.writes {t t' : FileTree} {F K : Place → Prop} (h : Bare t d) (hwrites : Writes F K t t')
    (hF : ∀ v, F v → isBelow d v = false) (hd : ¬ K d) : Bare t' d := by
  refine ⟨fun v n hv hnode => ?_, fun target hlink => h.plain target ((hwrites.link_iff d target hd).1 hlink)⟩
  rcases hwrites.touches.node v with hsame | ⟨-, hdir⟩ | hFv
  · exact h.directory v n hv (hsame ▸ hnode)
  · exact Option.some.inj (hnode.symm.trans hdir)
  · rw [hF v hFv] at hv
    cases hv

/-- A directory that was emptied is bare. -/
theorem bare_unbindBelow (hnode : t.node? d = some .directory) : Bare (t.unbindBelow d) d where
  directory v n hv hn := by
    rw [node?_unbindBelow_eq, if_pos hv] at hn
    cases hn
  plain target hlink := by
    rw [node?_unbindBelow_eq, if_neg (by simp [isBelow]), hnode] at hlink
    cases hlink

/-- Where nothing is left, it is bare. -/
theorem bare_cleared (t : FileTree) (hd : d ≠ []) : Bare (t.cleared d) d where
  directory v n hv hn := by
    rw [node?_cleared _ hd, if_pos (isBelow_iff.1 hv).1] at hn
    cases hn
  plain target hlink := by
    rw [node?_cleared _ hd, if_pos (List.prefix_refl d)] at hlink
    cases hlink

/-- Without a link that stood there it is bare, if nothing stood below. -/
theorem bare_unbind (hd : d ≠ []) (hnothing : ∀ v n, isBelow d v = true → t.node? v = some n → n = .directory) :
    Bare (t.unbind d) d where
  directory v n hv hn := by
    rw [node?_unbind _ hd] at hn
    split at hn
    · cases hn
    · exact hnothing v n hv hn
  plain target := by simp [node?_unbind _ hd]

/-- **Removing all** clears the directory, and where it succeeds nothing but directories is left below. Of a link
only the link is removed. -/
theorem removeAll_yields {A : Place → Prop} (hnamed : w.tree.Named A dir d) (hA : ∀ v, A v → w.tree.Unlinked d v)
    (hrooted : w.tree.Rooted d) (happroach : w.tree.Approaches dir d) :
    (removeAll dir).Yields w fun r w' => w.Keeps w' ∧ Clears d w.tree w'.tree ∧ (r = .ok () → Bare w'.tree d) := by
  -- Where no directory stands, nothing stands below.
  have hnothing : w.tree.node? d ≠ some .directory → ∀ v n, isBelow d v = true → w.tree.node? v = some n →
      n = .directory := by
    intro hdir v n hv hnode
    by_contra hn
    exact hdir (hrooted v n hv hnode hn)
  unfold removeAll
  rw [yields_attempt_bind, Workspace.outcome_removeDirectories hnamed]
  rcases hlook : w.tree.look false dir with x | n
  · by_cases hx : x = .notFound
    · subst hx
      have hnone := happroach.node?_eq_none hnamed.ends hlook
      exact ⟨.refl w, .refl d _, fun _ => ⟨hnothing (by simp [hnone]), by simp [hnone]⟩⟩
    · cases x <;> first | exact absurd rfl hx | exact ⟨.refl w, .refl d _, by simp⟩
  have hnode := (look_named hnamed hlook).1
  cases n with
  | link target =>
    have hclears := clears_unbind w.tree (p := d) (d := d) (.inr ⟨rfl, hnamed.ne_root, by simp [hnode]⟩)
    exact ⟨Workspace.keeps_withTree _ _, hclears, fun _ => bare_unbind hnamed.ne_root (hnothing (by simp [hnode]))⟩
  | file contents modified => exact ⟨.refl w, .refl d _, by simp⟩
  | directory =>
    have hclears := clears_unbindBelow w.tree d
    have hbare := bare_unbindBelow hnode
    have hkeeps := Workspace.keeps_withTree w (w.tree.unbindBelow d)
    dsimp only
    rcases hremove : (w.tree.unbindBelow d).removeDirectory dir with x | t
    · cases x <;> exact ⟨hkeeps, hclears, fun _ => hbare⟩
    · have hsteady := hclears.steady fun _ => False
      have hstands : (w.tree.unbindBelow d).Stands A dir d :=
        (hnamed.congr hsteady.base (fun v target hv => hsteady.link_iff (hA v hv) (by simp) target)
          fun target hlink => absurd hlink (hbare.plain target)).stands hbare.plain
      obtain ⟨rfl, hdir, -⟩ := removeDirectory_stands hstands hremove
      exact ⟨hkeeps.trans (Workspace.keeps_withTree _ _), clears_cleared w.tree hnamed.ne_root,
        fun _ => bare_cleared w.tree hnamed.ne_root⟩

end Extraction

end LayeredBundles
