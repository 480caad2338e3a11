import LayeredBundles.Proofs.Artifacts

/-! # Making artifacts is confined to the directory

Whatever becomes of an artifact, nothing changes but what is strictly below the extraction directory, and
directories made where nothing stood. This needs less than the account of what is made: the path of the
directory may lead through the directory itself, as long as there are no links in it.

* **`FileTree.Works d`** — a change that is confined to what is strictly below `d`;
* **`FileTree.Fills d`** — such a change, and new directories wherever nothing stood;
* **`Extraction.produce_works`** — once its directory is created, producing an artifact changes nothing else;
* **`Extraction.makeArtifact_fills`** — making an artifact fills the directory. -/

namespace LayeredBundles

namespace FileTree

variable {t t' t'' : FileTree} {A : Place → Prop} {dir dest other : String} {d p : Place}
  {names : List String} {name : String}

/-! ## (1) Changes of the tree -/

/-- A file or link below `d` has a directory at `d`. -/
def Rooted (t : FileTree) (d : Place) : Prop :=
  ∀ v n, isBelow d v = true → t.node? v = some n → n ≠ .directory → t.node? d = some .directory

/-- What stands strictly below `d`, and is no link. -/
def Inward (d v : Place) (n : Option Node) : Prop :=
  isBelow d v = true ∧ ∀ target, n ≠ some (.link target)

/-- `t.Fills d t'`: the trees differ only strictly below `d` and by new directories. No links are new, and
files come only where `d` is a directory. -/
structure Fills (d : Place) (t t' : FileTree) : Prop where
  /-- What is changed. -/
  touches : Touches (Inward d) t t'
  /-- The directory stays rooted. -/
  rooted : t.Rooted d → t'.Rooted d

/-- `t.Works d t'`: the trees differ only strictly below `d`. No links are new, and files come only where `d` is a
directory. -/
structure Works (d : Place) (t t' : FileTree) : Prop where
  /-- Relative paths begin where they began. -/
  base : t'.base = t.base
  /-- What stands at each place. -/
  node : ∀ v, t'.node? v = t.node? v ∨ Inward d v (t'.node? v)
  /-- The directory stays rooted. -/
  rooted : t.Rooted d → t'.Rooted d

/-- What works below a directory fills it. -/
theorem Works.fills (h : Works d t t') : Fills d t t' := ⟨⟨h.base, fun v => (h.node v).imp_right .inr⟩, h.rooted⟩

/-- To change nothing works below any directory. -/
theorem Works.refl (d : Place) (t : FileTree) : Works d t t := ⟨rfl, fun _ => .inl rfl, id⟩

/-- One change after another is confined as both of them are. -/
theorem Works.trans (h : Works d t t') (h' : Works d t' t'') : Works d t t'' := by
  refine ⟨h'.base.trans h.base, fun v => ?_, fun hr => h'.rooted (h.rooted hr)⟩
  rcases h'.node v with hsame | hinward
  · rw [hsame]
    exact h.node v
  · exact .inr hinward

/-- What is not strictly below the directory is left alone. -/
theorem Works.outside (h : Works d t t') {v : Place} (hv : isBelow d v = false) : t'.node? v = t.node? v :=
  (h.node v).resolve_right fun hinward => Bool.false_ne_true (hv.symm.trans hinward.1)

/-- To change nothing fills any directory. -/
theorem Fills.refl (d : Place) (t : FileTree) : Fills d t t := ⟨.refl _ t, id⟩

/-- Filling a directory twice is filling it. -/
theorem Fills.trans (h : Fills d t t') (h' : Fills d t' t'') : Fills d t t'' :=
  ⟨h.touches.trans (fun _ hv => ⟨hv.1, by simp⟩) h'.touches, fun hr => h'.rooted (h.rooted hr)⟩

/-- New directories leave a directory rooted: a file or link that is there now was there before. -/
theorem Rooted.adds (h : t.Rooted d) (hadds : Adds t t') : t'.Rooted d := by
  intro v n hv hnode hn
  refine hadds.node_of_some (h v n hv ?_ hn)
  rcases hadds.node v with hsame | ⟨-, hdir⟩ | hfalse
  · exact hsame ▸ hnode
  · rw [hdir] at hnode
    cases hnode
    exact absurd rfl hn
  · exact hfalse.elim

/-- New directories fill any directory. -/
theorem Adds.fills (h : Adds t t') (d : Place) : Fills d t t' :=
  ⟨h.mono fun _ _ => False.elim, fun hr => hr.adds h⟩

/-- Changes that fill a directory without links leave every link as it is. -/
theorem Fills.link_iff (h : Fills d t t') (hplain : t.Plain d) (v : Place) (target : String) :
    t'.node? v = some (.link target) ↔ t.node? v = some (.link target) := by
  rcases h.touches.node v with hsame | ⟨hnone, hdir⟩ | ⟨hbelow, hlink⟩
  · rw [hsame]
  · rw [hnone, hdir]; simp
  · exact ⟨fun h => absurd h (hlink target),
      fun h => absurd h (hplain v (isBelow_iff.1 hbelow).1 target)⟩

/-- A directory is found where it was while another one without links is filled. -/
theorem Fills.site (h : Fills d t t') (hplain : t.Plain d) {B : Place → Prop} {d' : Place}
    (hsite : t.Site B dir d') : t'.Site B dir d' :=
  hsite.congr h.touches.base (fun v target _ => h.link_iff hplain v target) fun v hv target hlink =>
    hsite.plain v hv target ((h.link_iff hplain v target).1 hlink)

/-- A node is set strictly below `d`, and a file only where `d` is a directory. -/
theorem Sets.works {n : Option Node} (h : t.Sets p n t') (hp : isBelow d p = true)
    (hlink : ∀ target, n ≠ some (.link target))
    (hfile : ∀ c m, n = some (.file c m) → t.node? d = some .directory) : Works d t t' := by
  have hd : t'.node? d = t.node? d := by
    rw [h.node, if_neg]
    rintro rfl
    exact (isBelow_iff.1 hp).2 rfl
  -- The directory itself is another place, so it is what it was.
  refine ⟨h.base, fun v => ?_, fun hr v x hv hnode hx => ?_⟩
  · rw [h.node]
    split
    · next hvp => exact .inr ⟨hvp ▸ hp, hlink⟩
    · exact .inl rfl
  · rw [hd]
    rw [h.node] at hnode
    split at hnode
    · cases x with
      | directory => exact absurd rfl hx
      | file c m => exact hfile c m hnode
      | link target => exact absurd hnode (hlink target)
    · exact hr v x hv hnode hx

/-- A path of names below a place ends strictly below it. -/
theorem isBelow_inside (d : Place) (names : List String) (name : String) :
    isBelow d (d ++ names ++ [name]) = true := by
  refine isBelow_iff.2 ⟨prefix_inside d names name, fun h => ?_⟩
  have := congrArg List.length h
  simp only [List.length_append, List.length_singleton] at this
  omega

/-- What is strictly below a place that is below `d` is taken away. -/
theorem unbindBelow_works (t : FileTree) (hp : d <+: p) : Works d t (t.unbindBelow p) := by
  -- The root stands whatever is taken away, but it is below nothing.
  have hnode : ∀ v, (t.unbindBelow p).node? v = if isBelow p v then none else t.node? v := by
    intro v
    by_cases hv : v = []
    · subst hv
      have hroot : isBelow p [] = false := by
        rw [← Bool.not_eq_true, isBelow_iff]
        rintro ⟨hle, hne⟩
        exact hne (List.prefix_nil.1 hle).symm
      simp [hroot]
    · exact node?_unbindBelow t p v hv
  have hup : ∀ v, isBelow p v = true → isBelow d v = true := by
    intro v hv
    obtain ⟨hle, hne⟩ := isBelow_iff.1 hv
    refine isBelow_iff.2 ⟨hp.trans hle, ?_⟩
    rintro rfl
    exact hne (hle.eq_of_length_le hp.length_le).symm
  refine ⟨rfl, fun v => ?_, fun hr v n hv hfile hn => ?_⟩
  · rw [hnode]
    split
    · next h => exact .inr ⟨hup v h, by simp⟩
    · exact .inl rfl
  · rw [hnode] at hfile ⊢
    have hd : isBelow p d = false := by
      rw [← Bool.not_eq_true, isBelow_iff]
      rintro ⟨hle, hne⟩
      exact hne (hp.eq_of_length_le hle.length_le)
    rw [hd]
    split at hfile
    · cases hfile
    · exact hr v n hv hfile hn

end FileTree

namespace FileTree

variable {t t' : FileTree} {A : Place → Prop} {dir dest other : String} {d : Place}
  {names names' : List String} {name next : String} {contents : ByteArray} {modified : Instant}

/-! ## (2) Operations below the directory -/

/-- Writing to a path inside the directory works below it. -/
theorem write_works (hsite : t.Site A dir d) (hdest : Inside dir names name dest)
    (h : t.write dest contents modified = .ok t') : Works d t t' := by
  obtain ⟨rfl, -, hreaches⟩ := write_stands (hsite.inside hdest) h
  exact (sets_bind t (by simp) _).works (isBelow_inside d names name) (by simp)
    fun _ _ _ => by simpa using hsite.directory_of_reaches hdest hreaches List.nil_prefix

/-- Setting the time of a path inside the directory works below it. -/
theorem stamp_works (hsite : t.Site A dir d) (hdest : Inside dir names name dest)
    (h : t.stamp dest modified = .ok t') : Works d t t' := by
  obtain ⟨c, m, hnode, rfl⟩ := stamp_stands (hsite.inside hdest) h
  have hsets := sets_bind t (p := d ++ names ++ [name]) (by simp) (.file c modified)
  refine ⟨rfl, fun v => ?_, fun hr v n hv hfile hn => ?_⟩
  · rw [hsets.node]
    split
    · next hvp => exact .inr ⟨hvp ▸ isBelow_inside d names name, by simp⟩
    · exact .inl rfl
  · have hd : d ≠ d ++ names ++ [name] := fun h => (isBelow_iff.1 (isBelow_inside d names name)).2 h.symm
    rw [hsets.node, if_neg hd]
    rw [hsets.node] at hfile
    split at hfile
    · next hvp => exact hr v _ hv (hvp ▸ hnode) (by simp)
    · exact hr v n hv hfile hn

/-- Removing a path inside the directory works below it. -/
theorem remove_works (hsite : t.Site A dir d) (hdest : Inside dir names name dest)
    (h : t.remove dest = .ok t') : Works d t t' := by
  rw [(remove_stands (hsite.inside hdest) h).1]
  exact (sets_unbind t (by simp)).works (isBelow_inside d names name) (by simp) (by simp)

/-- Moving one path inside the directory onto another works below it. -/
theorem move_works (hsite : t.Site A dir d) (hdest : Inside dir names name dest)
    (hother : Inside dir names' next other) (h : t.move other dest = .ok t') : Works d t t' := by
  obtain ⟨n, hnode, -, rfl, -, hreaches⟩ := move_stands (hsite.inside hdest) (hsite.inside hother) h
  have hfirst : Works d t (t.unbind (d ++ names' ++ [next])) :=
    (sets_unbind t (by simp)).works (isBelow_inside d names' next) (by simp) (by simp)
  have hd : d ≠ d ++ names' ++ [next] := fun h => (isBelow_iff.1 (isBelow_inside d names' next)).2 h.symm
  -- Two changes, one after another: the first leaves the directory as it is.
  refine hfirst.trans ((sets_bind _ (by simp) n).works (isBelow_inside d names name) ?_ fun _ _ _ => ?_)
  · rintro target heq
    cases heq
    exact (hsite.inside hother).plain target hnode
  · rw [(sets_unbind t (by simp)).node, if_neg hd]
    exact by simpa using hsite.directory_of_reaches hdest hreaches List.nil_prefix

/-- Removing a directory inside the directory works below it. -/
theorem removeDirectory_works (hsite : t.Site A dir d) (hdest : Inside dir names name dest)
    (h : t.removeDirectory dest = .ok t') : Works d t t' := by
  rw [(removeDirectory_stands (hsite.inside hdest) h).1]
  exact (sets_unbind t (by simp)).works (isBelow_inside d names name) (by simp) (by simp)

end FileTree

namespace Workspace

open FileTree Fallible

variable {w w' w'' w₀ : Workspace} {A : Place → Prop} {dir dest other : String} {d : Place}
  {names names' : List String} {name next : String}

/-- `w.Fills d w'`: the tree is changed below `d` only, and the rest is kept. -/
structure Fills (d : Place) (w w' : Workspace) : Prop where
  /-- The tree. -/
  tree : FileTree.Fills d w.tree w'.tree
  /-- The rest. -/
  keeps : w.Keeps w'

/-- A workspace that stays as it is has filled any directory. -/
theorem Fills.refl (d : Place) (w : Workspace) : Fills d w w := ⟨.refl d _, .refl w⟩

/-- Filling a directory of a workspace twice is filling it. -/
theorem Fills.trans (h : Fills d w w') (h' : Fills d w' w'') : Fills d w w'' :=
  ⟨h.tree.trans h'.tree, h.keeps.trans h'.keeps⟩

/-- Creating directories fills any directory. -/
theorem Prepares.fills (h : w.Prepares w') (d : Place) : Fills d w w' := ⟨h.adds.fills d, h.keeps⟩

/-- `w.Works d w'`: the tree is changed strictly below `d` only, and the rest is kept. -/
structure Works (d : Place) (w w' : Workspace) : Prop where
  /-- The tree. -/
  tree : FileTree.Works d w.tree w'.tree
  /-- The rest. -/
  keeps : w.Keeps w'

/-- A workspace that stays as it is has worked below any directory. -/
theorem Works.refl (d : Place) (w : Workspace) : Works d w w := ⟨.refl d _, .refl w⟩

/-- One piece of work below a directory after another is work below it. -/
theorem Works.trans (h : Works d w w') (h' : Works d w' w'') : Works d w w'' :=
  ⟨h.tree.trans h'.tree, h.keeps.trans h'.keeps⟩

/-- Work below a directory fills it. -/
theorem Works.fills (h : Works d w w') : Fills d w w' := ⟨h.tree.fills, h.keeps⟩

/-- A change that is confined to the directory wherever the directory is a site. -/
theorem preserves_change {f : FileTree → Except FileError FileTree} (hsite : w₀.tree.Site A dir d)
    (h : ∀ t t', t.Site A dir d → f t = .ok t' → FileTree.Works d t t') :
    (change f).Preserves (Works d w₀) := by
  intro w hw
  rw [Yields, outcome_change]
  split
  · next t ht =>
    exact hw.trans ⟨h _ _ (hw.tree.fills.site hsite.plain hsite) ht, keeps_withTree w t⟩
  · exact hw

/-- Discarding a file inside the directory, whether it stands or not, is work below it. -/
theorem preserves_discard {ε : Type} (hsite : w₀.tree.Site A dir d) (hdest : Inside dir names name dest) :
    (discard dest : Work ε Unit).Preserves (Works d w₀) := by
  unfold discard remove
  exact (preserves_change hsite fun t t' ht => remove_works ht hdest).attempt.bind fun _ =>
    preserves_pure ()

/-- Writing a file inside the directory is work below it, also when the disk refuses. -/
theorem preserves_write (hsite : w₀.tree.Site A dir d) (hdest : Inside dir names name dest)
    (contents : ByteArray) : (write dest contents).Preserves (Works d w₀) := fun w hw =>
  preserves_change hsite (fun _ _ ht => write_works ht hdest) w hw

/-- Moving a file inside the directory is work below it. -/
theorem preserves_move (hsite : w₀.tree.Site A dir d) (hdest : Inside dir names name dest)
    (hother : Inside dir names' next other) : (move other dest).Preserves (Works d w₀) := by
  intro w hw
  obtain ⟨held, hmove⟩ := outcome_move other dest w
  rw [Yields, hmove]
  split
  · next t ht =>
    have hmoved := move_works (hw.tree.fills.site hsite.plain hsite) hdest hother ht
    exact hw.trans ⟨hmoved, rfl, rfl, rfl, Nat.le_refl _⟩
  · exact hw

/-- Removing a tree inside the directory is work below it, however far it gets. -/
theorem preserves_removeDirectories (hsite : w₀.tree.Site A dir d) (hdest : Inside dir names name dest) :
    (removeDirectories dest).Preserves (Works d w₀) := by
  have hempty : (emptyDirectory dest).Preserves (Works d w₀) := by
    refine preserves_change hsite fun t t' ht h => ?_
    split at h
    · cases h
    · next p slash hlocate =>
      obtain ⟨rfl, -⟩ := (ht.inside hdest).reaches hlocate
      cases h
      exact unbindBelow_works t (prefix_inside d names name)
  exact preserves_removals (preserves_change hsite fun t t' ht => remove_works ht hdest) hempty
    (preserves_change hsite fun t t' ht => removeDirectory_works ht hdest)

end Workspace

namespace Extraction

open FileTree Workspace Fallible

variable {w w₀ : Workspace} {A : Place → Prop} {dir dest temporary : String} {d : Place}
  {names : List String} {name hidden : String}

/-! ## (3) Making an artifact -/

/-- Writing an entry to a hidden path is work below the directory, whatever the bundle holds. -/
theorem preserves_writeEntry (hsite : w₀.tree.Site A dir d) (hdest : Inside dir names hidden temporary)
    (l : Layer) (e : Entry) : (writeEntry l e temporary).Preserves (Workspace.Works d w₀) := by
  unfold writeEntry
  rcases l.writeOut e.path with ⟨out, r⟩
  refine ((preserves_write hsite hdest out).failingAs _).bind fun _ => (preserves_ofExcept _).bind fun _ => ?_
  exact (preserves_change hsite fun t t' ht => stamp_works ht hdest).failingAs _

/-- Moving a temporary file into place, and what is tried when it is refused, is work below the directory. -/
theorem preserves_moveIntoPlace (hsite : w₀.tree.Site A dir d) (hdest : Inside dir names name dest)
    (htemporary : Inside dir names hidden temporary) :
    (moveIntoPlace temporary dest).Preserves (Workspace.Works d w₀) := by
  have hlast : (moveOrDiscard temporary dest).Preserves (Workspace.Works d w₀) := by
    unfold moveOrDiscard
    refine (preserves_move hsite hdest htemporary).attempt.bind fun r => ?_
    split
    · exact preserves_pure ()
    · exact (preserves_discard hsite htemporary).bind fun _ => preserves_throw _
  unfold moveIntoPlace
  refine preserves_get.bind fun w => ?_
  dsimp only
  split
  · exact ((preserves_removeDirectories hsite hdest).failingAs _).bind fun _ => hlast
  · exact hlast

/-- **Once its directory is created**, producing an artifact changes nothing but what is strictly below the extraction
directory, however it ends. -/
theorem produce_works {l : Layer} {e : Entry} {front : String} (hsite : w.tree.Site A dir d)
    (hdest : Inside dir names name dest) (hname : e.name = name) (hfront : DiskPath.parent? dest = some front) :
    (produce l e dest).Yields w fun _ w' => Workspace.Works d ((createDirectories front).outcome w).2 w' := by
  have hcreate := createDirectories_yields w front
  unfold produce
  simp only [hfront, hname]
  rw [Yields] at hcreate
  refine Yields.bind (P := fun _ w₁ => ((createDirectories front).outcome w).2 = w₁) rfl ?_ ?_
  · rintro _ w₁ rfl
    generalize ((createDirectories front).outcome w).2 = w₁ at hcreate
    have hsite₁ := (hcreate.fills d).tree.site hsite.plain hsite
    refine Yields.bind (P := fun r w₂ => Workspace.Works d w₁ w₂ ∧
      r = .ok (DiskPath.join front (temporaryName name w₁.process w₁.serial))) ?_ ?_ fun _ _ h => h.1
    · exact ⟨⟨.refl d _, rfl, rfl, rfl, Nat.le_succ _⟩, rfl⟩
    rintro _ w₂ ⟨h₂, ⟨⟩⟩
    have htemporary := inside_temporary hdest hfront w₁.process w₁.serial
    refine ((preserves_writeEntry hsite₁ htemporary l e).attempt.bind fun r => ?_) w₂ h₂
    split
    · exact preserves_moveIntoPlace hsite₁ hdest htemporary
    · exact (preserves_discard hsite₁ htemporary).bind fun _ => preserves_throw _
  · rintro _ w₁ rfl
    exact .refl d _

/-- **Making an artifact fills the directory**, however it ends. -/
theorem makeArtifact_fills (hsite : w.tree.Site A dir d) (l : Layer) (path : String) :
    (makeArtifact dir l path).Yields w fun _ w' => Workspace.Fills d w w' := by
  refine (makeArtifact_cases w dir l path).mono ?_
  rintro r w' (⟨-, rfl⟩ | ⟨names, name, e, dest, htarget, ⟨-, -, rfl⟩ | ⟨-, out, hout, -⟩⟩)
  · exact .refl d w'
  · exact .refl d w'
  · obtain ⟨front, hfront, -, -⟩ :=
      DiskPath.exists_parent (htarget.inside.steps_eq.trans (List.append_assoc _ _ _).symm)
    have hworks := (produce_works (l := l) hsite htarget.inside htarget.name_eq hfront).of_outcome hout
    exact ((createDirectories_yields w front).fills d).trans hworks.fills

/-- From any state that the directory was filled up to, making an artifact goes on filling it. -/
theorem preserves_fills (hsite : w₀.tree.Site A dir d) (l : Layer) (path : String) :
    (makeArtifact dir l path).Preserves (Workspace.Fills d w₀) := fun _ hw =>
  (makeArtifact_fills (hw.tree.site hsite.plain hsite) l path).mono fun _ _ h => hw.trans h

end Extraction

end LayeredBundles
