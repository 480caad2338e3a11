import LayeredBundles.Proofs.Copies

/-! # What outlives a build

One run after another uses an extraction directory and a store of records. Every run checks its build first, and
goes on only if that ends well. Whatever was in the directory before, and wherever a check failed, a run that goes on
finds nothing below the directory but what was written by runs of its own tokens.

* **`Root.Task`** — what a run goes on with;
* **`Stage`** — the state of a run, and by whom each file was written;
* **`History`** — runs one after another, and what others do elsewhere meanwhile;
* **`Stage.Sound`** — a record never runs ahead of the directory;
* **`History.writers_eq`** — no file of another build is left. -/

namespace LayeredBundles

open FileTree Fallible

/-! ## (1) Runs -/

/-- What a run goes on with after its check. -/
inductive Root.Task where
  /-- Make an artifact. -/
  | makeArtifact (layer : Nat) (path : String)
  /-- Unpack a package. -/
  | unpackPackage (layout : Layout) (package : String)
  /-- Find a unit. -/
  | resolve (layout : Layout) (name : String)
  /-- Check the build again. -/
  | checkBuild

/-- Do what a run goes on with. The root of a run is the only one of its importer. -/
def Root.Task.perform (r : Root) (store : RecordStore) : Root.Task → Importing Unit
  | .makeArtifact i path => do
    let _ ← .onRoot 0 (r.makeArtifact i path)
  | .unpackPackage layout package => do
    let _ ← .onRoot 0 (r.unpackPackage layout package)
  | .resolve layout name => do
    let _ ← (Importer.new [r] layout fun _ _ => .ok ()).resolve name
  | .checkBuild => do
    let _ ← .onRoot 0 (r.checkBuild store)

/-- A **stage** of a history. -/
structure Stage where
  /-- The state of the run. -/
  state : ImporterState
  /-- The tokens of the run that wrote the file at a place. -/
  writers : Place → Option Tokens
  /-- The root of the run, once its check has ended well. -/
  running : Option Root

namespace Stage

/-- The workspace of a stage. -/
abbrev workspace (g : Stage) : Workspace := g.state.workspace

end Stage

/-- By whom the files of `t'` were written, if a run of the given tokens made it from `t`. -/
def attributed (tokens : Tokens) (t t' : FileTree) (writers : Place → Option Tokens) (v : Place) : Option Tokens :=
  if t'.node? v = t.node? v then writers v else some tokens

section History

variable (dir : String) (store : RecordStore) (d : Place) (place : Option Place)

/-- What others do: they leave the directory alone and bring no record of it, and it can be checked still. -/
structure Workspace.Beside (w w' : Workspace) : Prop where
  /-- The directory. -/
  node : ∀ v, d <+: v → w'.tree.node? v = w.tree.node? v
  /-- Its record is the same, or lost. -/
  record : w.Forgets place dir w'
  /-- The directory and the store can be used. -/
  checkable : w'.Checkable dir store d place

/-- A **history** of runs that use one directory and one store. -/
inductive History : Stage → Prop where
  /-- Any tree, and no record of the directory. -/
  | start {s : ImporterState} (checkable : s.workspace.Checkable dir store d place)
      (unknown : ∀ record, ¬ s.workspace.Records place dir record) : History ⟨s, fun _ => none, none⟩
  /-- A run begins, with any layers, and checks its build. It stops if that fails. -/
  | launch {g : Stage} (past : History g) {r : Root} (root : r.dir = dir) {s : ImporterState}
      (beside : g.workspace.Beside dir store d place s.workspace) :
      History ⟨((Importing.onRoot 0 (r.checkBuild store)).outcome s).2,
        attributed r.tokens s.workspace.tree
          ((Importing.onRoot 0 (r.checkBuild store)).outcome s).2.workspace.tree g.writers,
        ((Importing.onRoot 0 (r.checkBuild store)).outcome s).1.toOption.map fun _ => r⟩
  /-- The run goes on. It may write files anew just as they were. -/
  | step {g : Stage} (past : History g) {r : Root} (running : g.running = some r) (task : Root.Task)
      {writers : Place → Option Tokens} (written : ∀ v, writers v = some r.tokens ∨
        writers v = attributed r.tokens g.workspace.tree
          ((task.perform r store).outcome g.state).2.workspace.tree g.writers v) :
      History ⟨((task.perform r store).outcome g.state).2, writers, some r⟩
  /-- Others do something meanwhile. -/
  | beside {g : Stage} (past : History g) {w : Workspace} (beside : g.workspace.Beside dir store d place w) :
      History { g with state := { g.state with workspace := w } }

end History

variable {dir : String} {store : RecordStore} {d : Place} {place : Option Place} {w w' : Workspace} {t t' : FileTree}
  {tokens : Tokens} {writers writers' : Place → Option Tokens} {r : Root}

/-! ## (2) Who wrote what -/

/-- `t.WrittenBy d tokens writers`: every file below `d` was written by a run of these tokens. -/
def FileTree.WrittenBy (t : FileTree) (d : Place) (tokens : Tokens) (writers : Place → Option Tokens) : Prop :=
  ∀ v c m, isBelow d v = true → t.node? v = some (.file c m) → writers v = some tokens

/-- What a run of the same tokens writes was written by such runs. -/
theorem FileTree.WrittenBy.extend (h : t.WrittenBy d tokens writers)
    (hwritten : ∀ v, writers' v = some tokens ∨ writers' v = attributed tokens t t' writers v) :
    t'.WrittenBy d tokens writers' := by
  intro v c m hv hfile
  rcases hwritten v with hnew | hsame
  · exact hnew
  · rw [hsame, attributed]
    split
    · next hnode => exact h v c m hv (hnode ▸ hfile)
    · rfl

/-- What is left was written by those who wrote it before. -/
theorem FileTree.WrittenBy.left {now : Tokens} (h : t.WrittenBy d tokens writers)
    (hleft : ∀ v c m, isBelow d v = true → t'.node? v = some (.file c m) → t.node? v = some (.file c m)) :
    t'.WrittenBy d tokens (attributed now t t' writers) := by
  intro v c m hv hfile
  have hbefore := hleft v c m hv hfile
  rw [attributed, if_pos (hfile.trans hbefore.symm)]
  exact h v c m hv hbefore

/-- Runs of the same tokens may have written any file anew. -/
theorem FileTree.WrittenBy.anew (h : t.WrittenBy d tokens writers)
    (hwritten : ∀ v, writers' v = some tokens ∨ writers' v = writers v) : t.WrittenBy d tokens writers' := by
  intro v c m hv hfile
  rcases hwritten v with hnew | hsame
  · exact hnew
  · rw [hsame]
    exact h v c m hv hfile

/-- `w.Settled d tokens writers`: at and below `d` are no links, and every file there was written by a run of these
tokens. -/
structure Workspace.Settled (w : Workspace) (d : Place) (tokens : Tokens) (writers : Place → Option Tokens) : Prop where
  /-- No links. -/
  plain : w.tree.Plain d
  /-- By whom the files were written. -/
  written : w.tree.WrittenBy d tokens writers

/-- What is settled stays so while the directory is left alone. -/
theorem Workspace.Settled.beside (h : w.Settled d tokens writers)
    (hnode : ∀ v, d <+: v → w'.tree.node? v = w.tree.node? v) : w'.Settled d tokens writers where
  plain v hv target := hnode v hv ▸ h.plain v hv target
  written v c m hv hfile := h.written v c m hv (hnode v (isBelow_iff.1 hv).1 ▸ hfile)

/-- What is settled stays so when the build is checked, whoever does that. -/
theorem Workspace.Settled.checks {now : Tokens} (h : w.Settled d tokens writers)
    (hcheck : w.Checkable dir store d place) (hchecks : w.Checks d place w') :
    w'.Settled d tokens (attributed now w.tree w'.tree writers) where
  plain := hchecks.tidies.steady.plain hcheck.shifts h.plain (List.prefix_refl d)
  written := h.written.left fun v c m hv hfile => by
    refine hchecks.tidies.file (fun hfiles => ?_) hfile
    rw [hcheck.files v hfiles] at hv
    cases hv

/-- Where nothing but directories is left, everything is settled. -/
theorem Workspace.settled_of_bare (h : Extraction.Bare w.tree d) : w.Settled d tokens writers where
  plain v hv target hlink := by
    rcases eq_or_ne v d with rfl | hne
    · exact h.plain target hlink
    · cases h.directory v _ (isBelow_iff.2 ⟨hv, hne⟩) hlink
  written v c m hv hfile := by cases h.directory v _ hv hfile

/-! ## (3) A record never runs ahead of the directory -/

namespace Stage

/-- `g.Sound dir store d place`: what the record of the directory says, and what a run that goes on relies on, is
true of the files. -/
structure Sound (dir : String) (store : RecordStore) (d : Place) (place : Option Place) (g : Stage) : Prop where
  /-- The directory can be checked. -/
  checkable : g.workspace.Checkable dir store d place
  /-- Where tokens are recorded, the files were written by runs of these tokens. -/
  record : ∀ record, g.workspace.Records place dir record →
    Table.Sorted record.layers ∧ g.workspace.Settled d record.layers g.writers
  /-- Where a run goes on, the files were written by runs of its tokens, and no others are recorded. -/
  running : ∀ r, g.running = some r → r.dir = dir ∧ g.workspace.Settled d r.tokens g.writers ∧
    ∀ record, g.workspace.Records place dir record → record.layers = r.tokens

variable {g : Stage} {s s' : ImporterState}

/-- What a run relies on makes its stage sound. -/
theorem sound_of_running (hroot : r.dir = dir) (hcheck : s.workspace.Checkable dir store d place)
    (hsettled : s.workspace.Settled d r.tokens writers)
    (hrecord : ∀ record, s.workspace.Records place dir record → record.layers = r.tokens) :
    Sound dir store d place ⟨s, writers, some r⟩ where
  checkable := hcheck
  record record hfound := by
    rw [hrecord record hfound]
    exact ⟨r.sorted_tokens, hsettled⟩
  running r' hr' := by
    cases hr'
    exact ⟨hroot, hsettled, hrecord⟩

/-- What others do leaves a stage sound. -/
theorem Sound.beside (h : g.Sound dir store d place) (hbeside : g.workspace.Beside dir store d place w) :
    Sound dir store d place { g with state := { g.state with workspace := w } } := by
  refine ⟨hbeside.checkable, fun record hfound => ?_, fun r hr => ?_⟩
  · obtain ⟨hsorted, hsettled⟩ := h.record record (hbeside.record record hfound)
    exact ⟨hsorted, hsettled.beside hbeside.node⟩
  · obtain ⟨hroot, hsettled, hlayers⟩ := h.running r hr
    exact ⟨hroot, hsettled.beside hbeside.node, fun record hfound =>
      hlayers record (hbeside.record record hfound)⟩

/-- **A run that begins** is sound, however its check ends. -/
theorem Sound.launch (h : g.Sound dir store d place) (hroot : r.dir = dir) (hstate : s.workspace = g.workspace) :
    Sound dir store d place ⟨((Importing.onRoot 0 (r.checkBuild store)).outcome s).2,
      attributed r.tokens s.workspace.tree ((Importing.onRoot 0 (r.checkBuild store)).outcome s).2.workspace.tree
        g.writers,
      ((Importing.onRoot 0 (r.checkBuild store)).outcome s).1.toOption.map fun _ => r⟩ := by
  subst hroot
  have hcheck : s.workspace.Checkable r.dir store d place := hstate ▸ h.checkable
  have hbefore := h.record
  rw [← hstate] at hbefore
  have hplain : ∀ record, s.workspace.Records place r.dir record → ∀ target,
      s.workspace.tree.node? d ≠ some (.link target) := fun record hfound =>
    (hbefore record hfound).2.plain d (List.prefix_refl d)
  obtain ⟨hchecks, hcheck', hanswers⟩ := Root.checkBuild_yields (s := s.root 0) hcheck hplain
  simp only [Importing.onRoot, outcome_onto, ImporterState.withRoot]
  generalize hrun : (r.checkBuild store).outcome (s.root 0) = run at hchecks hcheck' hanswers
  obtain ⟨out, s'⟩ := run
  -- A record that was there before still tells the truth.
  have hkept : ∀ record, s.workspace.Records place r.dir record → Table.Sorted record.layers ∧
      s'.workspace.Settled d record.layers (attributed r.tokens s.workspace.tree s'.workspace.tree g.writers) :=
    fun record hfound => (hbefore record hfound).imp id fun hsettled => hsettled.checks hcheck hchecks
  -- By the answer: the check failed, it kept the files of the same tokens, or it removed all of them.
  rcases out with x | _ | changed
  · refine ⟨hcheck', fun record hfound => ?_, fun _ hrunning => by cases hrunning⟩
    rcases hanswers.2 record hfound with hold | ⟨hlayers, hbare⟩
    · exact hkept record hold
    · rw [hlayers]
      exact ⟨r.sorted_tokens, Workspace.settled_of_bare hbare⟩
  · obtain ⟨hforgets, -, record, hfound, hdiffering⟩ := hanswers
    obtain ⟨hsorted, hsettled⟩ := hkept record hfound
    have hlayers := BuildRecord.layers_eq_of_differing hsorted r.sorted_tokens hdiffering
    refine sound_of_running rfl hcheck' (hlayers ▸ hsettled) fun record' hfound' => ?_
    rw [(hforgets record' hfound').unique hfound, hlayers]
  · obtain ⟨hbare, -, hrecord⟩ := hanswers
    exact sound_of_running rfl hcheck' (Workspace.settled_of_bare hbare) hrecord

end Stage

/-- The task of checking a build leaves the state that a check of the root leaves. -/
theorem Root.Task.outcome_checkBuild (s : ImporterState) : ((Root.Task.checkBuild.perform r store).outcome s).2 =
    ((Importing.onRoot 0 (r.checkBuild store)).outcome s).2 := by
  simp only [Root.Task.perform, outcome_bind]
  split
  · next hout => rw [hout, outcome_pure]
  · next hout => rw [hout]

/-- What a run goes on with fills the directory, unless it is another check. -/
theorem Root.Task.fills {A : Place → Prop} {task : Root.Task} (htask : task ≠ .checkBuild) {s : ImporterState}
    (hsite : s.workspace.tree.Site A r.dir d) :
    s.workspace.Fills d ((task.perform r store).outcome s).2.workspace := by
  have hmake := Extraction.preserves_fills hsite
  have hperform : (task.perform r store).Preserves (Importer.Has (s.workspace.Fills d)) := by
    cases task with
    | makeArtifact i path =>
      exact (Importer.preserves_onRoot (Root.preserves_makeArtifact fun l _ => hmake l path)).bind
        fun _ => preserves_pure _
    | unpackPackage layout package =>
      exact (Importer.preserves_onRoot (Root.preserves_unpackPackage fun l _ path _ => hmake l.2 path)).bind
        fun _ => preserves_pure _
    | resolve layout name =>
      refine (Importer.preserves_resolve fun r' hr' i hit _ => ?_).bind fun _ => preserves_pure _
      cases List.mem_singleton.1 (Importer.mem_of_holder? hr')
      refine Importer.preserves_onRoot ?_
      exact Hit.preserves_realize (fun l _ path _ => hmake l.2 path) fun l _ => hmake l hit.path
    | checkBuild => exact absurd rfl htask
  exact hperform s (.refl d _)

namespace Stage

variable {g : Stage} {s s' : ImporterState}

/-- What could be checked can be checked after the directory was filled, and no other record is there. -/
theorem checkable_of_fills (hcheck : w.Checkable dir store d place) (hplain : w.tree.Plain d) (h : w.Fills d w') :
    w'.Checkable dir store d place ∧ w.Forgets place dir w' := by
  have hlinks := h.tree.link_iff hplain
  obtain ⟨hcheck', -, hleads⟩ := hcheck.steady ⟨h.tree.touches.base, fun v target _ => (hlinks v target).1,
    fun v target _ _ => (hlinks v target).2⟩ h.keeps.process (h.tree.rooted hcheck.rooted)
  refine ⟨hcheck', Workspace.forgets_of_node h.keeps.records fun p q hp hq => ?_⟩
  have hown : RecordStore.Files place w.process p := ⟨p, hp, .inl rfl⟩
  have hbefore := hleads p q hown hq
  refine ⟨hbefore, fun c m hfile => .inl ?_⟩
  rcases h.tree.touches.node q with hsame | ⟨-, hdirectory⟩ | ⟨hbelow, -⟩
  · exact hsame ▸ hfile
  · rw [hdirectory] at hfile; cases hfile
  · rw [hcheck.files q (.inr ⟨p, hown, .inr hbefore⟩)] at hbelow
    cases hbelow

/-- **A run that goes on** stays sound, whatever it does. -/
theorem Sound.step (h : g.Sound dir store d place) (hrunning : g.running = some r) (task : Root.Task)
    (hwritten : ∀ v, writers v = some r.tokens ∨ writers v = attributed r.tokens g.workspace.tree
      ((task.perform r store).outcome g.state).2.workspace.tree g.writers v) :
    Sound dir store d place ⟨((task.perform r store).outcome g.state).2, writers, some r⟩ := by
  obtain ⟨rfl, hsettled, hlayers⟩ := h.running r hrunning
  -- Another check may remove files and records; everything else only adds files of the run.
  by_cases htask : task = .checkBuild
  · subst htask
    rw [Root.Task.outcome_checkBuild] at hwritten ⊢
    obtain ⟨hchecks, hcheck', hanswers⟩ := Root.checkBuild_yields (s := g.state.root 0) h.checkable
      fun _ _ => hsettled.plain d (List.prefix_refl d)
    simp only [Importing.onRoot, outcome_onto, ImporterState.withRoot] at hwritten ⊢
    generalize (r.checkBuild store).outcome (g.state.root 0) = run at hchecks hcheck' hanswers hwritten ⊢
    obtain ⟨out, s'⟩ := run
    have hafter : s'.workspace.Settled d _ (attributed r.tokens _ s'.workspace.tree _) :=
      hsettled.checks h.checkable hchecks
    refine sound_of_running rfl hcheck' ⟨hafter.plain, hafter.written.anew hwritten⟩ fun record hfound => ?_
    -- Either the record is the one there was, or it was made by this check.
    rcases out with x | _ | changed
    · exact (hanswers.2 record hfound).elim (hlayers record) (·.1)
    · exact hlayers record (hanswers.1 record hfound)
    · exact hanswers.2.2 record hfound
  · have hfills : g.state.workspace.Fills d ((task.perform r store).outcome g.state).2.workspace :=
      Root.Task.fills htask ⟨h.checkable.named.stands (hsettled.plain d (List.prefix_refl d)), hsettled.plain⟩
    obtain ⟨hcheck', hforgets⟩ := checkable_of_fills h.checkable hsettled.plain hfills
    exact sound_of_running rfl hcheck' ⟨fun v hv target hlink => hsettled.plain v hv target
      ((hfills.tree.link_iff hsettled.plain v target).1 hlink), hsettled.written.extend hwritten⟩
        fun record hfound => hlayers record (hforgets record hfound)

end Stage

/-! ## (4) Histories -/

namespace History

variable {g : Stage}

/-- **Every stage of a history is sound.** -/
theorem sound (h : History dir store d place g) : g.Sound dir store d place := by
  induction h with
  | start checkable unknown =>
    exact ⟨checkable, fun record hfound => absurd hfound (unknown record), fun _ hrunning => by cases hrunning⟩
  | launch past root beside ih => exact (ih.beside beside).launch root rfl
  | step past running task written ih => exact ih.step running task written
  | beside past beside ih => exact ih.beside beside

/-- **No file of another build is left**: while a run goes on, every file below the directory was written by runs of
the same tokens. -/
theorem writers_eq (h : History dir store d place g) (hrunning : g.running = some r) :
    r.dir = dir ∧ g.workspace.tree.WrittenBy d r.tokens g.writers := by
  obtain ⟨hroot, hsettled, -⟩ := h.sound.running r hrunning
  exact ⟨hroot, hsettled.written⟩

/-- The root of one file, with a token. -/
def tagged (dir token : String) : Root :=
  ⟨dir, [.opened (.ofFiles "a" 1 [("a.txt", token.toUTF8)]) (some token)], [], 1⟩

/-- A workspace is beside itself. -/
theorem beside_refl (h : History dir store d place g) : g.workspace.Beside dir store d place g.workspace :=
  ⟨fun _ _ => rfl, .refl _ _ _, h.sound.checkable⟩

/-- A run goes on if its check has an answer. -/
theorem running_of_isSome {α : Type} {out : Except ImportFailure α} (h : out.toOption.isSome = true) :
    (out.toOption.map fun _ => r) = some r := by
  obtain ⟨answer, hout⟩ := Option.isSome_iff_exists.1 h
  rw [hout]
  rfl

/-- A run that begins, whose check ends well, and that goes on. -/
theorem launch_step {s : ImporterState} {running : Option Root} (h : History dir store d place ⟨s, writers, running⟩)
    (hroot : r.dir = dir) (hok : ((Importing.onRoot 0 (r.checkBuild store)).outcome s).1.toOption.isSome = true)
    (task : Root.Task) : ∃ writers', History dir store d place
      ⟨((task.perform r store).outcome ((Importing.onRoot 0 (r.checkBuild store)).outcome s).2).2, writers', some r⟩ :=
  ⟨_, (h.launch hroot (beside_refl h)).step (running_of_isSome hok) task fun _ => .inr rfl⟩

/-- After an update, the file of the build before is gone, and that of the new one stands there. -/
theorem tagged_writers_eq : ∃ g m, History "/x" .memory ["x"] none g ∧ g.running = some (tagged "/x" "2") ∧
    g.workspace.tree.node? ["x", "a.txt"] = some (.file "2".toUTF8 m) ∧
      g.writers ["x", "a.txt"] = some (tagged "/x" "2").tokens := by
  have hbegins : (Importer.new [tagged "/x" "1"] .standard fun _ _ => .ok ()).Begins .memory (fun _ => ["x"]) none
      (.ofTree .empty) := Importer.begins_alone rfl (by decide) (by decide)
  have hcheck := ((hbegins.stock fun _ _ _ => True).toGround).checkable (i := 0) rfl
  have hstart : History "/x" .memory ["x"] none ⟨.ofWorkspace (.ofTree .empty), fun _ => none, none⟩ :=
    .start hcheck fun _ hrecord => nomatch hrecord
  obtain ⟨writers, hfirst⟩ :=
    hstart.launch_step (r := tagged "/x" "1") rfl (by decide +kernel) (.makeArtifact 0 "a.txt")
  obtain ⟨writers', hsecond⟩ :=
    hfirst.launch_step (r := tagged "/x" "2") rfl (by decide +kernel) (.makeArtifact 0 "a.txt")
  refine ⟨_, ⟨1, 0, by decide⟩, hsecond, rfl, ?_, (writers_eq hsecond rfl).2 ["x", "a.txt"] "2".toUTF8 ⟨1, 0, by decide⟩
    (by decide) ?_⟩ <;> (dsimp only [Stage.workspace]; decide +kernel)

/-- A path that passes a link which stands in the directory it leads to. -/
def throughLink : String := "/w/y/l/../../../y"

/-- The tree in which it does. Beside the directory of the same name that the path leads to, there is another one
with a file. -/
def linked : Workspace := .ofTree ⟨[
  (["w"], .directory), (["w", "a"], .directory), (["w", "a", "b"], .directory), (["w", "a", "b", "c"], .directory),
  (["w", "y"], .directory), (["w", "y", "l"], .link "/w/a/b/c"),
  (["y"], .directory), (["y", "old.txt"], .file "old".toUTF8 .epoch)], []⟩

/-- The state after the check of the first build. -/
def linkedChecked : ImporterState :=
  ((Importing.onRoot 0 ((tagged throughLink "1").checkBuild .memory)).outcome (.ofWorkspace linked)).2

/-- The state after its file was extracted. -/
def linkedExtracted : ImporterState :=
  ((Importing.onRoot 0 ((tagged throughLink "1").makeArtifact 0 "a.txt")).outcome linkedChecked).2

/-- **A file that no run wrote is found in the directory**, when the check removes a link on the way to it. -/
theorem throughLink_not_written : (∀ record, ¬ linked.Records none throughLink record) ∧
    ∃ s₁ s₂ dest p c m,
      (Importing.onRoot 0 ((tagged throughLink "1").checkBuild .memory)).outcome (.ofWorkspace linked)
        = (.ok (.invalidated []), s₁) ∧
      (Importing.onRoot 0 ((tagged throughLink "1").makeArtifact 0 "a.txt")).outcome s₁ = (.ok dest, s₂) ∧
      s₂.workspace.tree.locate true (throughLink ++ "/old.txt") = .ok (p, false) ∧
      s₂.workspace.tree.node? p = some (.file c m) ∧
      attributed (tagged throughLink "1").tokens s₁.workspace.tree s₂.workspace.tree
        (attributed (tagged throughLink "1").tokens linked.tree s₁.workspace.tree fun _ => none) p = none := by
  have hcheck : ((Importing.onRoot 0 ((tagged throughLink "1").checkBuild .memory)).outcome (.ofWorkspace linked)).1
      = .ok (.invalidated []) := by decide +kernel
  have hmake : ((Importing.onRoot 0 ((tagged throughLink "1").makeArtifact 0 "a.txt")).outcome linkedChecked).1
      = .ok (throughLink ++ "/a.txt") := by decide +kernel
  have hfound : linkedExtracted.workspace.tree.locate true (throughLink ++ "/old.txt") = .ok (["y", "old.txt"], false) ∧
      linkedExtracted.workspace.tree.node? ["y", "old.txt"] = some (.file "old".toUTF8 .epoch) ∧
      linkedChecked.workspace.tree.node? ["y", "old.txt"] = some (.file "old".toUTF8 .epoch) ∧
      linked.tree.node? ["y", "old.txt"] = some (.file "old".toUTF8 .epoch) := by decide +kernel
  obtain ⟨hlocate, hnode, hbefore, hfirst⟩ := hfound
  refine ⟨fun _ hrecord => (nomatch hrecord), linkedChecked, linkedExtracted, _, _, _, _, outcome_eq_of_fst hcheck,
    outcome_eq_of_fst hmake, hlocate, hnode, ?_⟩
  rw [attributed, if_pos (hnode.trans hbefore.symm), attributed, if_pos (hbefore.trans hfirst.symm)]

end History

end LayeredBundles
