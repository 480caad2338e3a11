import LayeredBundles.Proofs.Staging

/-! # What making an artifact does

An artifact is written under a temporary name beside its destination and moved into place. As long as the way to the
destination does not lead through it, this happens at places that can be told beforehand: whatever goes wrong, no
temporary file is left, and nothing is changed but the destination and what stood below it. In a site, the path alone
determines the places.

* **`Extraction.produce_stages`** — up to the move, directories are added and the temporary file is written;
* **`Extraction.Change`** — what making an artifact may do to a node;
* **`Extraction.makeArtifact_yields`** — what making an artifact leaves in a site, and where the artifact stands. -/

namespace LayeredBundles

namespace Extraction

open DiskPath FileTree Fallible

variable {w w' : Workspace} {l : Layer} {e : Entry} {A B : Place → Prop} {dir dest temporary : String} {d p q : Place}
  {names segs : List String} {name hidden : String} {c : ByteArray} {m : Instant}

/-- What is gone at `v` when an artifact at `p` is not made, `hidden` being the place of its temporary file
and `t` the tree before: the temporary file, and a directory at `p` with all that it held. -/
inductive Gone (p hidden : Place) (t : FileTree) (v : Place) : Option Node → Prop
  /-- The temporary file. -/
  | hidden (place : v = hidden) : Gone p hidden t v none
  /-- Something below. -/
  | below (place : isBelow p v = true) : Gone p hidden t v none
  /-- The directory. -/
  | directory (place : v = p) (before : t.node? p = some .directory) : Gone p hidden t v none

/-- What making an artifact may do to the node at `v`. -/
inductive Change (l : Layer) (e : Entry) (p hidden : Place) (t : FileTree) (v : Place) : Option Node → Prop
  /-- Something is gone. -/
  | gone {n : Option Node} (gone : Gone p hidden t v n) : Change l e p hidden t v n
  /-- A copy of the file stands at the place. -/
  | copied {c : ByteArray} (place : v = p) (contents : l.contents e.path = .ok c) :
      Change l e p hidden t v (some (.file c e.modified))

/-- What is gone is gone from the tree as it was before directories were added. -/
theorem Gone.after_adds {p q : Place} {t t₁ t' : FileTree} (hadds : Adds t t₁)
    (h : Touches (Gone p q t₁) t₁ t') : Touches (Gone p q t) t t' := by
  refine ⟨h.base.trans hadds.base, fun v => ?_⟩
  rcases h.node v with hsame | ⟨hnone, hdir⟩ | hgone
  · rw [hsame]
    exact (hadds.node v).imp id (Or.imp id False.elim)
  · rcases hadds.node v with hsame | ⟨-, hdir'⟩ | hfalse
    · exact .inr (.inl ⟨hsame ▸ hnone, hdir⟩)
    · rw [hdir'] at hnone; cases hnone
    · exact hfalse.elim
  · generalize hn : t'.node? v = n at hgone
    cases hgone with
    | hidden hv => exact .inr (.inr (.hidden hv))
    | below hv => exact .inr (.inr (.below hv))
    | directory hv hp =>
      subst hv
      rcases hadds.node v with hsame | ⟨hnone, -⟩ | hfalse
      · exact .inr (.inr (.directory rfl (hsame ▸ hp)))
      · exact .inl hnone.symm
      · exact hfalse.elim

/-- A tree without the temporary file, and perhaps without what stood at the place. -/
theorem touches_of_sets {p q : Place} {t t₁ t' : FileTree} (hp : p ≠ [])
    (hcleared : t₁ = t ∨ t.node? p = some .directory ∧ t₁ = t.cleared p) (hsets : t₁.Sets q none t') :
    Touches (Gone p q t) t t' := by
  refine ⟨?_, fun v => ?_⟩
  · rcases hcleared with rfl | ⟨-, rfl⟩ <;> exact hsets.base
  · rw [hsets.node]
    split
    · next hv => exact .inr (.inr (.hidden hv))
    · rcases hcleared with rfl | ⟨hdir, rfl⟩
      · exact .inl rfl
      · rw [node?_cleared t hp]
        split
        · next hv =>
          by_cases hvp : v = p
          · exact .inr (.inr (.directory hvp hdir))
          · exact .inr (.inr (.below (isBelow_iff.2 ⟨hv, hvp⟩)))
        · exact .inl rfl

/-- A tree with the copy at the place besides. -/
theorem touches_copied {p q : Place} {t t₁ t' : FileTree} {c : ByteArray}
    (h : Touches (Gone p q t) t t₁) (hcontents : l.contents e.path = .ok c)
    (hsets : t₁.Sets p (some (.file c e.modified)) t') : Touches (Change l e p q t) t t' := by
  -- The copy is put at the place last, so what it hides does not matter.
  refine ⟨hsets.base.trans h.base, fun v => ?_⟩
  rw [hsets.node]
  split
  · next hv => exact .inr (.inr (.copied hv hcontents))
  · exact (h.node v).imp id (Or.imp id .gone)

/-- The name of a temporary file is longer than the name it is for. -/
theorem temporaryName_ne (name : String) (process serial : Nat) : temporaryName name process serial ≠ name := by
  rw [temporaryName_eq]
  exact DiskPath.hidden_ne _ _

/-- The temporary file of an artifact stands beside it. -/
theorem inside_temporary {front : String} (hdest : Inside dir names name dest)
    (hfront : DiskPath.parent? dest = some front) (process serial : Nat) :
    Inside dir names (temporaryName name process serial)
      (DiskPath.join front (temporaryName name process serial)) := by
  have hhidden := isName_temporaryName (hdest.isName name (by simp)).slash process serial
  obtain ⟨hsteps, habs⟩ := DiskPath.steps_beside
    (hdest.steps_eq.trans (List.append_assoc _ _ _).symm) hfront hhidden
  refine ⟨hsteps.trans (List.append_assoc _ _ _), habs.trans hdest.isAbsolute_eq,
    DiskPath.segments_join_name hhidden front, ?_⟩
  intro s hs
  rcases List.mem_append.1 hs with hs | hs
  · exact hdest.isName s (List.mem_append_left _ hs)
  · rw [List.mem_singleton.1 hs]; exact hhidden

/-- The place of the temporary file of an artifact below `d ++ names`. -/
def temporaryPlace (d : Place) (names : List String) (name : String) (process serial : Nat) : Place :=
  d ++ names ++ [temporaryName name process serial]

/-- The path of the temporary file that is written next for an artifact. -/
def temporaryPath (w : Workspace) (dest name : String) : String :=
  join ((parent? dest).getD "") (temporaryName name w.process w.serial)

/-- The temporary file that is written next stands beside the artifact. -/
theorem inside_temporaryPath (hdest : Inside dir names name dest) (w : Workspace) :
    Inside dir names (temporaryName name w.process w.serial) (temporaryPath w dest name) := by
  obtain ⟨front, hfront, -, -⟩ := exists_parent (hdest.steps_eq.trans (List.append_assoc _ _ _).symm)
  rw [temporaryPath, hfront]
  exact inside_temporary hdest hfront w.process w.serial

/-- `Staged l e q c w w'`: directories were added to the tree, and the copy was written to the temporary file at `q`. -/
structure Staged (l : Layer) (e : Entry) (q : Place) (c : ByteArray) (w w' : Workspace) : Prop where
  /-- The rest is kept. -/
  keeps : w.Keeps w'
  /-- The number of the temporary file is used up. -/
  next : w.serial < w'.serial
  /-- It is a copy. -/
  contents : l.contents e.path = .ok c
  /-- The tree. -/
  tree : ∃ t, Adds w.tree t ∧ t.node? q ≠ some .directory ∧ t.Sets q (some (.file c e.modified)) w'.tree

/-- Staging a file does not move where relative paths begin. -/
theorem Staged.base (h : Staged l e q c w w') : w'.tree.base = w.tree.base := by
  obtain ⟨t, hadds, -, hsets⟩ := h.tree
  exact hsets.base.trans hadds.base

/-- The staged file stands under its hidden name, with the time of its entry. -/
theorem Staged.node_hidden (h : Staged l e q c w w') : w'.tree.node? q = some (.file c e.modified) := by
  obtain ⟨t, -, -, hsets⟩ := h.tree
  rw [hsets.node, if_pos rfl]

/-- Where no link stood under the name of the temporary file, no link comes or goes. -/
theorem Staged.link_iff (h : Staged l e q c w w') (hq : ∀ target, w.tree.node? q ≠ some (.link target)) (v : Place)
    (target : String) : w'.tree.node? v = some (.link target) ↔ w.tree.node? v = some (.link target) := by
  obtain ⟨t, hadds, -, hsets⟩ := h.tree
  rw [hsets.node]
  split
  · next hv =>
    subst hv
    exact iff_of_false (by simp) (hq target)
  · exact hadds.link_iff v target

/-- The place of the artifact is where it was while the file is staged. -/
theorem Staged.stands {path : String} (h : Staged l e q c w w') (hq : ∀ target, w.tree.node? q ≠ some (.link target))
    (hstands : w.tree.Stands A path p) : w'.tree.Stands A path p :=
  hstands.congr h.base (fun v target _ => h.link_iff hq v target) fun target =>
    (h.link_iff hq p target).not.2 (hstands.plain target)

/-- So it is under its name. -/
theorem Staged.named {path : String} (h : Staged l e q c w w') (hq : ∀ target, w.tree.node? q ≠ some (.link target))
    (hnamed : w.tree.Named A path p) : w'.tree.Named A path p :=
  hnamed.congr h.base (fun v target _ => h.link_iff hq v target) fun target hlink =>
    hnamed.ends target ((h.link_iff hq p target).1 hlink)

/-- Every temporary file is numbered anew. -/
theorem outcome_newTemporary (front name : String) (w : Workspace) : (newTemporary front name).outcome w =
    (.ok (join front (temporaryName name w.process w.serial)), { w with serial := w.serial + 1 }) := rfl

/-- An artifact that was produced went through all the steps. -/
theorem exists_of_produce (h : (produce l e dest).outcome w = (.ok (), w')) :
    ∃ front w₁ w₂, parent? dest = some front ∧ (Workspace.createDirectories front).outcome w = (.ok (), w₁) ∧
      (writeEntry l e (temporaryPath w dest e.name)).outcome { w₁ with serial := w₁.serial + 1 } = (.ok (), w₂) ∧
      (moveIntoPlace (temporaryPath w dest e.name) dest).outcome w₂ = (.ok (), w') := by
  unfold produce at h
  split at h
  · next front hfront =>
    obtain ⟨⟨⟩, w₁, hcreate, h⟩ := exists_of_outcome_bind_ok h
    rw [outcome_failingAs, Prod.mk.injEq, mapError_eq_ok] at hcreate
    have hcreate : (Workspace.createDirectories front).outcome w = (.ok (), w₁) := Prod.ext hcreate.1 hcreate.2
    obtain ⟨temporary, _, hname, h⟩ := exists_of_outcome_bind_ok h
    have hprepares := Workspace.createDirectories_yields w front
    have hserial := Workspace.createDirectories_serial w front
    rw [Yields, hcreate] at hprepares
    rw [hcreate] at hserial
    -- Creating the directories changes neither the process nor the serial number.
    have hpath : temporaryPath w dest e.name = join front (temporaryName e.name w₁.process w₁.serial) := by
      rw [temporaryPath, hfront, hprepares.keeps.process, hserial]
      rfl
    rw [outcome_newTemporary, Prod.mk.injEq, Except.ok.injEq, ← hpath] at hname
    obtain ⟨rfl, rfl⟩ := hname
    obtain ⟨r, w₂, hwrite, h⟩ := exists_of_outcome_bind_ok h
    rw [outcome_attempt, Prod.mk.injEq, Except.ok.injEq] at hwrite
    split at h
    · exact ⟨front, w₁, w₂, hfront, hcreate, Prod.ext hwrite.1 hwrite.2, h⟩
    · obtain ⟨_, _, -, hthrow⟩ := exists_of_outcome_bind_ok h
      cases hthrow
  · cases h

/-- What was produced has used up a number. -/
theorem serial_lt_of_produce (h : (produce l e dest).outcome w = (.ok (), w')) : w.serial < w'.serial := by
  obtain ⟨front, w₁, w₂, -, hcreate, hwrite, hmove⟩ := exists_of_produce h
  have hserial := Workspace.createDirectories_serial w front
  have hwritten := writeEntry_keeps _ l e (temporaryPath w dest e.name) _ (.refl { w₁ with serial := w₁.serial + 1 })
  have hmoved := moveIntoPlace_keeps w₂ (temporaryPath w dest e.name) dest w₂ (.refl w₂)
  rw [hcreate] at hserial
  rw [Yields, hwrite] at hwritten
  rw [Yields, hmove] at hmoved
  calc w.serial < w.serial + 1 := Nat.lt_succ_self _
    _ = w₁.serial + 1 := by rw [← hserial]
    _ ≤ w₂.serial := hwritten.serial
    _ ≤ w'.serial := hmoved.serial

/-- **Before anything is moved**, producing an artifact has added directories at most, or has written the copy to the
temporary file. -/
theorem produce_stages (hdest : Inside dir names name dest) (hname : e.name = name)
    (hstands : w.tree.Stands A (temporaryPath w dest name) q) :
    (produce l e dest).Yields w fun r w' =>
      ((∃ x, r = .error x) ∧ ∃ t, Adds w.tree t ∧ (w'.tree = t ∨ t.Sets q none w'.tree)) ∨
        ∃ c w₁, Staged l e q c w w₁ ∧ w₁.tree.Reaches A (temporaryPath w dest name) q ∧
          (moveIntoPlace (temporaryPath w dest name) dest).outcome w₁ = (r, w') := by
  obtain ⟨front, hfront, -, -⟩ := exists_parent (hdest.steps_eq.trans (List.append_assoc _ _ _).symm)
  obtain ⟨segs, hsegs⟩ := (inside_temporaryPath hdest w).ends
  have hends : Ends (temporaryPath w dest name) q :=
    hstands.named.ends_of_segments hsegs ((inside_temporaryPath hdest w).isName _ (by simp)).counts
  have hne := hstands.ne_root
  have hpath : temporaryPath w dest name = join front (temporaryName name w.process w.serial) := by
    rw [temporaryPath, hfront]
    rfl
  unfold produce
  simp only [hfront, hname]
  -- The directory is created.
  refine Yields.bind (P := fun _ w₁ => w.Prepares w₁ ∧ w₁.serial = w.serial)
    ⟨Workspace.createDirectories_yields w front, Workspace.createDirectories_serial w front⟩ ?_
    fun x w₁ h => .inl ⟨⟨x, rfl⟩, w₁.tree, h.1.adds, .inl rfl⟩
  rintro _ w₁ ⟨hprepares, hserial⟩
  -- The temporary file is named.
  refine Yields.bind (P := fun r w₂ => r = .ok (temporaryPath w dest name) ∧ w₂.tree = w₁.tree ∧
    w.Keeps w₂ ∧ w.serial < w₂.serial) ?_ ?_ (by simp)
  · refine ⟨?_, rfl, hprepares.keeps.trans ⟨rfl, rfl, rfl, Nat.le_succ _⟩, by rw [← hserial]; exact Nat.lt_succ_self _⟩
    rw [hpath, ← hprepares.keeps.process, ← hserial]
    rfl
  rintro _ w₂ ⟨⟨⟩, htree, hkeeps, hnext⟩
  have hadds : Adds w.tree w₂.tree := htree ▸ hprepares.adds
  have hplain : ∀ target, w₂.tree.node? q ≠ some (.link target) := fun target =>
    (hadds.link_iff q target).not.2 (hstands.plain target)
  have hstands₂ : w₂.tree.Stands A (temporaryPath w dest name) q :=
    hstands.congr hadds.base (fun v target _ => hadds.link_iff v target) hplain
  -- The entry is written, or what was written is discarded.
  rw [yields_attempt_bind]
  have hwrite := writeEntry_yields (l := l) (e := e) hstands₂
  have hkeeps' := writeEntry_keeps w l e (temporaryPath w dest name) w₂ hkeeps
  have hnext' := (writeEntry_keeps w₂ l e (temporaryPath w dest name) w₂ (.refl w₂)).serial
  unfold Yields at hwrite hkeeps'
  rcases hout : (writeEntry l e (temporaryPath w dest name)).outcome w₂ with ⟨r, w₃⟩
  rw [hout] at hwrite hkeeps' hnext'
  dsimp only at hwrite hkeeps' hnext' ⊢
  rcases hwrite with ⟨⟨x, rfl⟩, rfl⟩ | ⟨hopens, hdir, c, m, hsets, hcopy⟩
  · refine Yields.bind (Workspace.discard_yields_some hstands₂) ?_ (by simp)
    rintro _ w₄ ⟨-, rfl | rfl⟩
    · exact .inl ⟨⟨x, rfl⟩, _, hadds, .inl rfl⟩
    · exact .inl ⟨⟨x, rfl⟩, _, hadds, .inr (sets_unbind _ hne)⟩
  · have hopens₃ := hsets.reaches (not_passable hdir hplain) hopens
    rcases r with x | _
    · have hnode₃ : w₃.tree.node? q = some (.file c m) := by rw [hsets.node, if_pos rfl]
      have hstands₃ := hsets.stands hplain (by simp) hstands₂
      refine Yields.bind (Workspace.discard_yields hstands₃ hopens₃ hends hnode₃) ?_ (by simp)
      rintro _ _ ⟨-, rfl⟩
      exact .inl ⟨⟨x, rfl⟩, _, hadds, .inr (hsets.trans (sets_unbind _ hne))⟩
    · obtain ⟨hcontents, rfl⟩ := hcopy rfl
      exact .inr ⟨c, w₃, ⟨hkeeps', Nat.lt_of_lt_of_le hnext hnext', hcontents, _, hadds, hdir, hsets⟩, hopens₃, rfl⟩

/-- Where an artifact was made, the copy is seen at its path. -/
def Arrived (l : Layer) (e : Entry) (dest : String) (p : Place) (t : FileTree) : Prop :=
  ∃ c, l.contents e.path = .ok c ∧ t.look false dest = .ok (.file c e.modified) ∧
    t.node? p = some (.file c e.modified)

/-- When a copy was moved into place, the tree without the temporary file is the one before, but for what is gone. -/
theorem Staged.touches (h : Staged l e q c w w') (hp : p ≠ []) (hdiffer : p ≠ q) {t : FileTree}
    (hreplaces : Replaces w'.tree p q c e.modified t) : Touches (Change l e p q w.tree) w.tree t := by
  obtain ⟨t₀, hadds, -, hsets⟩ := h.tree
  obtain ⟨t₁, t₂, hcleared, hfirst, hsecond⟩ := hreplaces
  refine touches_copied (Gone.after_adds hadds ?_) h.contents hsecond
  rcases hcleared with ⟨-, rfl⟩ | ⟨hdir, rfl⟩
  · exact touches_of_sets hp (.inl rfl) (hsets.trans hfirst)
  · refine touches_of_sets hp (.inr ⟨?_, rfl⟩) (hsets.cleared hp hfirst)
    rwa [hsets.node, if_neg hdiffer] at hdir

/-- **Producing an artifact** changes nothing but its place and what was below it, and ends well only with
the copy in place. -/
theorem produce_yields (hsite : w.tree.Site (Outside d) dir d) (hdest : Inside dir names name dest)
    (hname : e.name = name) :
    (produce l e dest).Yields w fun r w' => w.Keeps w' ∧ ∃ serial, w.serial ≤ serial ∧
      ((∃ x, r = .error x) ∧
          Touches (Gone (d ++ names ++ [name]) (temporaryPlace d names name w.process serial) w.tree)
            w.tree w'.tree ∨
        r = .ok () ∧ serial < w'.serial ∧ Arrived l e dest (d ++ names ++ [name]) w'.tree ∧
          Touches (Change l e (d ++ names ++ [name]) (temporaryPlace d names name w.process serial) w.tree)
            w.tree w'.tree) := by
  have hhidden := inside_temporaryPath hdest w
  have hne : d ++ names ++ [name] ≠ [] := by simp
  have hdiffer : temporaryPlace d names name w.process w.serial ≠ d ++ names ++ [name] := fun h => by
    simp only [temporaryPlace, List.append_cancel_left_eq, List.cons.injEq, and_true] at h
    exact temporaryName_ne _ _ _ h
  -- Below a site, no way leads through what is right below the last directory on it.
  have hway : ∀ v, Around (Outside d) (d ++ names) v → Outside (d ++ names ++ [name]) v := by
    rintro v hv ⟨more, rfl⟩
    exact not_around d names more name (by simpa using hv)
  have hstands := (hsite.inside hdest).mono hway
  have hstands' := (hsite.inside hhidden).mono hway
  refine (Yields.and (produce_keeps w l e dest w (.refl w)) (produce_stages hdest hname hstands')).mono ?_
  rintro r w' ⟨hkeeps, hstage⟩
  refine ⟨hkeeps, w.serial, Nat.le_refl _, ?_⟩
  rcases hstage with ⟨herror, t, hadds, htree⟩ | ⟨c, w₁, hstaged, hopens, hmove⟩
  · refine .inl ⟨herror, Gone.after_adds hadds ?_⟩
    rcases htree with rfl | hsets
    · exact .refl _ _
    · exact touches_of_sets hne (.inl rfl) hsets
  · obtain ⟨segs, hsegs⟩ := hdest.ends
    have hname' : IsName name := hdest.isName name (by simp)
    have hstands₁ := hstaged.stands hstands'.plain hstands
    have hstands₁' := hstaged.stands hstands'.plain hstands'
    rcases r with x | _
    · obtain ⟨t, hadds, -, hsets⟩ := hstaged.tree
      have hgone := discards_of_moveIntoPlace hstands₁ hsegs hname' (hdest.ends_at d) hstands₁' hopens
        (hhidden.ends_at d) (fun h => hdiffer (h.eq_of_length (by simp)).symm) hstaged.node_hidden hmove
      exact .inl ⟨⟨x, rfl⟩, Gone.after_adds hadds (touches_of_sets hne (.inl rfl) (hsets.trans hgone))⟩
    · obtain ⟨hlook, hreplaces⟩ := arrives_of_moveIntoPlace hstands₁.named
        (fun target hlink => absurd hlink (hstands₁.plain target)) hsegs hname' hstands₁' hstaged.node_hidden hmove
      have hserial := (moveIntoPlace_keeps w₁ (temporaryPath w dest name) dest w₁ (.refl w₁)).serial
      rw [hmove] at hserial
      refine .inr ⟨rfl, Nat.lt_of_lt_of_le hstaged.next hserial, ⟨c, hstaged.contents, hlook, ?_⟩,
        hstaged.touches hne hdiffer.symm hreplaces⟩
      obtain ⟨t₁, t₂, -, -, hsecond⟩ := hreplaces
      rw [hsecond.node, if_pos rfl]

/-- `Target dir l path names name e dest`: the artifact of a layer's file is to stand at `dest`, which is
at the names `names ++ [name]` below the directory. -/
structure Target (dir : String) (l : Layer) (path : String) (names : List String) (name : String) (e : Entry)
    (dest : String) : Prop where
  /-- The entry of the file. -/
  entry : l.entry path = .ok e
  /-- It is a file. -/
  file : e.isDir = false
  /-- The names are the steps of the path. -/
  steps : DiskPath.steps path = names ++ [name]
  /-- The destination. -/
  dest_eq : dest = DiskPath.join dir (ArchivePath.normalize path)
  /-- It is below the directory. -/
  inside : Inside dir names name dest

/-- The path of an entry is split into the directories and the name of its destination. -/
theorem Target.split_path {path : String} (h : Target dir l path names name e dest) :
    Text.split '/' e.path = names ++ [name] := by
  have hsegs : ArchivePath.segments path = names ++ [name] := h.steps
  rw [Layer.entry_path h.entry, ArchivePath.normalize, hsegs, ArchivePath.ofSegments]
  exact Text.split_join (by simp) fun s hs => (h.inside.isName s hs).slash

/-- An artifact has the name of its entry. -/
theorem Target.name_eq {path : String} (h : Target dir l path names name e dest) : e.name = name := by
  simp [Entry.name, ArchivePath.name, Text.afterLast, h.split_path]

/-- The path of a file that has a target is admitted. -/
theorem Target.artifactPath_eq {path : String} (h : Target dir l path names name e dest) :
    artifactPath dir e.path = .ok dest := by
  have hcontained : isContained e.path = true :=
    isContained_of_segments fun s hs => h.inside.isName s (h.split_path ▸ hs)
  rw [artifactPath, contained, if_pos hcontained, h.dest_eq, Layer.entry_path h.entry]
  rfl

/-- A file whose path is admitted has a target. -/
theorem exists_target {path : String} (hentry : l.entry path = .ok e) (hfile : e.isDir = false)
    (hdest : artifactPath dir e.path = .ok dest) : ∃ names name, Target dir l path names name e dest := by
  have hpath := Layer.entry_path hentry
  have hcontained : DiskPath.isContained e.path = true ∧ dest = DiskPath.join dir e.path := by
    unfold artifactPath contained at hdest
    split at hdest
    · next h => cases hdest; exact ⟨h, rfl⟩
    · cases hdest
  obtain ⟨habs, hne, hnames⟩ := DiskPath.isName_of_isContained hcontained.1
  have hsteps : DiskPath.steps e.path = DiskPath.steps path := by
    rw [hpath]
    exact ArchivePath.segments_normalize path
  rw [hsteps] at hne hnames
  rcases List.eq_nil_or_concat (DiskPath.steps path) with hnil | ⟨names, name, heq⟩
  · exact absurd hnil hne
  rw [List.concat_eq_append] at heq
  rw [heq] at hnames
  refine ⟨names, name, hentry, hfile, heq, by rw [hcontained.2, hpath], ?_, ?_, ?_, hnames⟩
  · rw [hcontained.2, DiskPath.steps_join habs, hsteps, heq]
  · rw [hcontained.2, DiskPath.isAbsolute_join habs]
  · obtain ⟨front, hfront⟩ := DiskPath.segments_join habs dir
    have hsplit : DiskPath.segments e.path = names ++ [name] := by
      rw [hpath, ArchivePath.normalize, show ArchivePath.segments path = _ from heq]
      exact Text.split_join (by simp) fun s hs => (hnames s hs).slash
    exact ⟨front ++ names, by rw [hcontained.2, hfront, hsplit, List.append_assoc]⟩

/-- A file that has a target is taken to be current, or is produced. -/
theorem Target.outcome_makeArtifact {path : String} (h : Target dir l path names name e dest) (w : Workspace) :
    (makeArtifact dir l path).outcome w = if isFresh w.tree dest e then (.ok dest, w) else
      (((produce l e dest).outcome w).1.map fun _ => dest, ((produce l e dest).outcome w).2) := by
  rw [makeArtifact, h.entry]
  simp only [Except.mapError, outcome_bind, outcome_ofExcept, h.file, Bool.false_eq_true, ↓reduceIte,
    h.artifactPath_eq, outcome_get]
  split
  · rfl
  · rw [outcome_bind]
    rcases (produce l e dest).outcome w with ⟨x | _, w'⟩ <;> rfl

/-- A file is fresh if it has the size and the time of the entry. -/
theorem isFresh_iff {t : FileTree} (hlook : t.look false dest = .ok (.file c m)) :
    isFresh t dest e = true ↔ c.size = e.size ∧ m.wholeSeconds = e.timestamp := by
  simp [isFresh, hlook]

/-- What is fresh is a file. -/
theorem exists_of_isFresh {t : FileTree} {e : Entry} (h : isFresh t dest e = true) :
    ∃ c modified, t.look false dest = .ok (.file c modified) ∧ c.size = e.size ∧
      modified.wholeSeconds = e.timestamp := by
  unfold isFresh at h
  split at h
  · next c modified hlook =>
    simp only [Bool.and_eq_true, decide_eq_true_eq] at h
    exact ⟨c, modified, hlook, h⟩
  · cases h

/-- How making an artifact can end. -/
inductive Made (dir : String) (l : Layer) (path : String) (d : Place) (w : Workspace) :
    Except ImportFailure String → Workspace → Prop
  /-- The path names no file whose artifact can be made. -/
  | refused (x : ImportFailure) : Made dir l path d w (.error x) w
  /-- What stands at the destination is taken to be current. -/
  | current {names : List String} {name : String} {e : Entry} {dest : String}
      (target : Target dir l path names name e dest) (fresh : isFresh w.tree dest e = true) :
      Made dir l path d w (.ok dest) w
  /-- The artifact was to be written, and that failed. -/
  | failed {names : List String} {name : String} {e : Entry} {dest : String}
      (target : Target dir l path names name e dest) (stale : isFresh w.tree dest e = false)
      (x : ImportFailure) {w' : Workspace} (keeps : w.Keeps w') {serial : Nat} (next : w.serial ≤ serial)
      (touches : Touches (Gone (d ++ names ++ [name])
        (temporaryPlace d names name w.process serial) w.tree) w.tree w'.tree) :
      Made dir l path d w (.error x) w'
  /-- The artifact was written. -/
  | arrived {names : List String} {name : String} {e : Entry} {dest : String}
      (target : Target dir l path names name e dest) (stale : isFresh w.tree dest e = false)
      {w' : Workspace} (keeps : w.Keeps w') {serial : Nat} (next : w.serial ≤ serial ∧ serial < w'.serial)
      (touches : Touches (Change l e (d ++ names ++ [name])
        (temporaryPlace d names name w.process serial) w.tree) w.tree w'.tree)
      (arrived : Arrived l e dest (d ++ names ++ [name]) w'.tree) : Made dir l path d w (.ok dest) w'

/-- **Making an artifact** is refused, finds the artifact current, or produces it. -/
theorem makeArtifact_cases (w : Workspace) (dir : String) (l : Layer) (path : String) :
    (makeArtifact dir l path).Yields w fun r w' => (∃ x, r = .error x) ∧ w' = w ∨
      ∃ names name e dest, Target dir l path names name e dest ∧
        (isFresh w.tree dest e = true ∧ r = .ok dest ∧ w' = w ∨ isFresh w.tree dest e = false ∧
          ∃ out, (produce l e dest).outcome w = (out, w') ∧ r = out.map fun _ => dest) := by
  by_cases htarget : ∃ names name e dest, Target dir l path names name e dest
  · obtain ⟨names, name, e, dest, htarget⟩ := htarget
    refine .inr ⟨names, name, e, dest, htarget, ?_⟩
    rw [htarget.outcome_makeArtifact]
    split
    · next hfresh => exact .inl ⟨hfresh, rfl, rfl⟩
    · next hstale => exact .inr ⟨by simpa using hstale, _, rfl, rfl⟩
  · left
    unfold makeArtifact
    rcases hentry : l.entry path with x | e
    · exact ⟨⟨_, rfl⟩, rfl⟩
    rcases hdir : e.isDir with _ | _
    · rcases hdest : artifactPath dir e.path with x | dest
      · simp only [Except.mapError, outcome_bind, outcome_ofExcept, hdir, hdest]
        exact ⟨⟨_, rfl⟩, rfl⟩
      · obtain ⟨names, name, hnames⟩ := exists_target hentry hdir hdest
        exact absurd ⟨names, name, e, dest, hnames⟩ htarget
    · simp only [Except.mapError, outcome_bind, outcome_ofExcept, hdir]
      exact ⟨⟨_, rfl⟩, rfl⟩

/-- Where an artifact is made, there is a target for it. -/
theorem exists_target_of_ok {path : String} (h : (makeArtifact dir l path).outcome w = (.ok dest, w')) :
    ∃ names name e, Target dir l path names name e dest := by
  have hcases := (makeArtifact_cases w dir l path).of_outcome h
  rcases hcases with ⟨⟨x, hx⟩, -⟩ | ⟨names, name, e, dest', htarget, ⟨-, hok, -⟩ | ⟨-, x | _, -, hok⟩⟩
  · cases hx
  · exact ⟨names, name, e, Except.ok.inj hok ▸ htarget⟩
  · cases hok
  · exact ⟨names, name, e, Except.ok.inj hok ▸ htarget⟩

/-- **What making an artifact leaves in a site.** -/
theorem makeArtifact_yields (hsite : w.tree.Site (Outside d) dir d) (l : Layer) (path : String) :
    (makeArtifact dir l path).Yields w (Made dir l path d w) := by
  refine (makeArtifact_cases w dir l path).mono ?_
  rintro r w' (⟨⟨x, rfl⟩, rfl⟩ | ⟨names, name, e, dest, htarget, ⟨hfresh, rfl, rfl⟩ | ⟨hstale, out, hout, rfl⟩⟩)
  · exact .refused x
  · exact .current htarget hfresh
  · have hproduce := produce_yields (l := l) hsite htarget.inside htarget.name_eq
    unfold Yields at hproduce
    rw [hout] at hproduce
    obtain ⟨hkeeps, serial, hserial, ⟨⟨x, rfl⟩, htouches⟩ | ⟨rfl, hnext, harrived, htouches⟩⟩ := hproduce
    · exact .failed htarget hstale x hkeeps hserial htouches
    · exact .arrived htarget hstale hkeeps ⟨hserial, hnext⟩ htouches harrived

end Extraction

end LayeredBundles
