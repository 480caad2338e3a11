import LayeredBundles.Proofs.Territories

/-! # Roots are checked by themselves

What is recorded of a root is left as it is by all that is done for others. So the first check of a root that ends well
goes by what was recorded before, and every later one finds nothing changed, whatever other roots there are.

* **`FileTree.Sparing`** — what may be changed of a tree for a store to be left as it is;
* **`Importer.Apart.perform_recalls`** — what is recorded of a root after something was done;
* **`Importer.answers`** — what the checks of a root answer; **`Importer.Apart.answers_eq`** says what that is;
* **`Importer.checkBuilds_yields`** — to check all roots at once is to check one after the other, so that what is said
  of single checks below holds of it as well;
* **`Importer.isolated`** — a root is left alone by what is done for others, and is checked as if it were the only one;
* **`Importer.nested_disturbed`** — settings pass their check that do not keep their roots apart. -/

namespace LayeredBundles

open DiskPath FileTree Fallible

/-! ## (1) What leaves a store as it is -/

namespace FileTree

variable {t t' : FileTree} {p v : Place}

/-- Covered are new directories, and what does not stand above a place or at it. -/
def Sparing (place : Option Place) : Permission := fun v old new =>
  old = none ∧ new = some .directory ∨ ∀ p, place = some p → ¬ v <+: p

/-- What does not stand above the file of the store, or at it, may be changed in any way. -/
theorem owns_sparing {place : Option Place} (h : ∀ p, place = some p → ¬ v <+: p) : (Sparing place).Owns v :=
  fun _ _ _ => .inr h

/-- A directory may be made anywhere. -/
theorem makes_sparing (place : Option Place) (v : Place) : (Sparing place).Makes v := .inl ⟨rfl, rfl⟩

/-- Such changes spare the file at the place. -/
theorem Alters.spares (h : Alters (Sparing (some p)) t t') : Spares p t t' := by
  refine ⟨fun v target hlink => absurd hlink (h.plain v target), ?_, fun v hv hdir => ?_⟩
  · exact (h.node p).imp_right fun hnew => hnew.resolve_right fun hout => hout p rfl (List.prefix_refl p)
  · rcases h.node v with hsame | ⟨hnone, -⟩ | hout
    · exact hsame.trans hdir
    · cases hdir.symm.trans hnone
    · exact absurd (isBelow_iff.1 hv).1 (hout p rfl)

end FileTree

namespace Workspace

variable {P : Permission} {w₀ w : Workspace} {place : Option Place}

/-- What holds of covered changes, and carries on, holds from the first to the last tree. -/
theorem Obeys.related (h : Obeys P w₀ w) {R : FileTree → FileTree → Prop} (hrefl : ∀ t, R t t)
    (htrans : ∀ {t t' t''}, R t t' → R t' t'' → R t t'') (halters : ∀ {t t'}, Alters P t t' → R t t') :
    R w₀.tree w.tree := by
  obtain ⟨new, htrees, hchain⟩ := h.trees
  -- The trees on the way, from the last one back.
  have hlast : ∀ (new : List FileTree) t, (new ++ [w₀.tree]).head? = some t →
      (new ++ [w₀.tree]).IsChain (fun later earlier => earlier.Alters P later) → R w₀.tree t := by
    intro new
    induction new with
    | nil =>
      rintro t ⟨⟩ -
      exact hrefl _
    | cons t' new ih =>
      rintro t ⟨⟩ hchain
      obtain ⟨t'', hhead⟩ : ∃ t'', (new ++ [w₀.tree]).head? = some t'' := by
        cases new <;> exact ⟨_, rfl⟩
      obtain ⟨rest, hrest⟩ := List.head?_eq_some_iff.1 hhead
      rw [List.cons_append, hrest, List.isChain_cons_cons, ← hrest] at hchain
      exact htrans (ih t'' hhead hchain.2) (halters hchain.1)
  refine hlast new w.tree ?_ hchain
  have hhead := congrArg List.head? htrees
  cases new with
  | nil => exact hhead.symm
  | cons t new => exact hhead.symm

/-- `w₀.PassesBy place w`: every change on the way spares the file of a store, and what else there is is kept. -/
structure PassesBy (place : Option Place) (w₀ w : Workspace) : Prop where
  /-- The changes. -/
  obeys : Obeys (Sparing place) w₀ w
  /-- The rest. -/
  keeps : w₀.Keeps w

/-- To do nothing passes any store by. -/
theorem PassesBy.refl (h : w.tree.LinkFree) : w.PassesBy place w := ⟨.refl _ h, .refl w⟩

/-- What passes a store by leaves it as it is. -/
theorem PassesBy.leaves (h : w₀.PassesBy place w) : w₀.Leaves place w := by
  refine ⟨h.keeps, h.obeys.base, ?_⟩
  rintro p rfl
  exact h.obeys.related (Spares.refl p) (fun h h' => h.trans h') Alters.spares

end Workspace

namespace Extraction

/-- **Making an artifact** keeps what no change of the tree reaches. -/
theorem makeArtifact_keeps (w₀ : Workspace) (dir : String) (l : Layer) (path : String) :
    (makeArtifact dir l path).Preserves w₀.Keeps := by
  unfold makeArtifact
  refine (preserves_ofExcept _).bind fun e => ?_
  cases hdir : e.isDir with
  | true =>
    simp only [↓reduceIte]
    exact preserves_throw _
  | false =>
    simp only [Bool.false_eq_true, ↓reduceIte]
    refine (preserves_ofExcept _).bind fun dest => preserves_get.bind fun w => ?_
    split
    · exact preserves_pure _
    · exact (produce_keeps w₀ l e dest).bind fun _ => preserves_pure _

end Extraction

/-- What is done on a territory where no file of a store stands spares the store. -/
theorem RecordStore.Beside.spares {store : RecordStore} {m : Importer} {base v : Place} {process : Nat} {r : Root}
    (h : store.Beside m base process) (hr : r ∈ m.roots) (hv : Territory (steps r.dir) v) :
    (Sparing (store.placeFrom? base)).Owns v :=
  owns_sparing fun p hp hle => h.files p ⟨p, hp, .inl rfl⟩ r hr (hv.of_prefix hle)

/-! ## (2) Answers -/

/-- `r.Answered place found w answer`: what is recorded of a root of which `found` was recorded before, and what the
answer is, if one was given about it. -/
def Root.Answered (r : Root) (place : Option Place) (found : Option BuildRecord) (w : Workspace) :
    Option BuildCheck → Prop
  | none => w.Recalls place r.dir found
  | some check => check = compareBuild found r.tokens ∧
      ∃ found', w.Recalls place r.dir found' ∧ compareBuild found' r.tokens = .unchanged

namespace Importer

variable {m : Importer} {store : RecordStore} {r : Root} {i : Nat}

namespace Act

/-- What is answered about the root at a position. -/
def answer? (i : Nat) (a : Act) (out : Except ImportFailure (Option BuildCheck)) : Option BuildCheck :=
  match a, out with
  | .check k, .ok answer => if k = i then answer else none
  | _, _ => none

end Act

/-- The answers about the root at a position, when some of it is done. -/
def answers (m : Importer) (store : RecordStore) (i : Nat) : ImporterState → List Act → List BuildCheck
  | _, [] => []
  | s, a :: as =>
    let (out, s') := (a.perform m store).outcome s
    (a.answer? i out).toList ++ answers m store i s' as

/-- The importer of one root only. -/
def alone (m : Importer) (r : Root) : Importer := { m with roots := [r] }

namespace Apart

variable {place : Option Place} {s : ImporterState} {w₀ : Workspace} {found : Option BuildRecord} {base : Place}
  {process : Nat}

/-- Below the directory of a root, no file of the store stands. -/
theorem grants_sparing (h : m.Apart) (hstore : store.Beside m base process) (hr : r ∈ m.roots) :
    (Sparing (store.placeFrom? base)).Grants base r.dir := by
  refine ⟨fun v hv => ?_, fun v _ => makes_sparing _ v⟩
  rw [(h.straight r hr).placeFrom_eq] at hv
  exact hstore.spares hr (.inl (isBelow_iff.1 hv).1)

/-- **Artifacts** leave the store as it is. -/
theorem makeArtifact_leaves (h : m.Apart) (hstore : store.Beside m w₀.tree.base w₀.process) (hr : r ∈ m.roots)
    (l : Layer) (path : String) :
    (Extraction.makeArtifact r.dir l path).Preserves (w₀.PassesBy (store.placeFrom? w₀.tree.base)) := fun w hw =>
  ⟨Extraction.makeArtifact_obeys (h.grants_sparing hstore hr) l path w hw.obeys,
    Extraction.makeArtifact_keeps w₀ r.dir l path w hw.keeps⟩

/-- **A check** goes by what is recorded of its root, and leaves the records of others. -/
theorem checkBuild_decides (h : m.Apart) {s : RootState}
    (hstore : store.Beside m s.workspace.tree.base s.workspace.process) (hplain : s.workspace.tree.LinkFree)
    (hr : r ∈ m.roots) (hready : store.Ready place s.workspace) : (r.checkBuild store).Yields s fun out s' =>
      r.Decides place s.workspace s'.workspace out ∧ store.Ready place s'.workspace := by
  obtain rfl := hready.place_eq
  have hgrants := h.grants_sparing hstore hr
  have hself : (Sparing (store.placeFrom? s.workspace.tree.base)).Owns (placeFrom s.workspace.tree.base r.dir) := by
    rw [(h.straight r hr).placeFrom_eq]
    exact hstore.spares hr (territory_self _)
  have hlock : ∀ path, Lock.path r.dir = .ok path →
      (Sparing (store.placeFrom? s.workspace.tree.base)).Owns (placeFrom s.workspace.tree.base path) := by
    intro path hpath
    rw [(h.straight r hr).placeFrom_lock hpath]
    exact hstore.spares hr (territory_lock _)
  refine Root.checkBuild_decides hready (Workspace.PassesBy.refl hplain) (fun w hw => hw.leaves) ?_ ?_ ?_
  · exact fun w hw => ⟨Lock.acquire_obeys hgrants.above hlock _ w hw.obeys, Lock.acquire_keeps _ r.dir _ w hw.keeps⟩
  · exact fun w hw => ⟨Extraction.removeTemporaries_obeys hgrants hself w hw.obeys,
      Extraction.removeTemporaries_keeps _ r.dir w hw.keeps⟩
  · exact fun w hw => ⟨Extraction.removeAll_obeys hgrants hself w hw.obeys,
      Extraction.removeAll_keeps _ r.dir w hw.keeps⟩

/-- **What is recorded of a root** stays what it was until it is checked and an answer is given. -/
theorem perform_recalls (h : m.Apart) (hstore : store.Beside m s.workspace.tree.base s.workspace.process)
    (hplain : s.workspace.tree.LinkFree) (hready : store.Ready place s.workspace) (a : Act)
    (hi : m.roots[i]? = some r) (hrecalls : s.workspace.Recalls place r.dir found) :
    (a.perform m store).Yields s fun out s' =>
      store.Ready place s'.workspace ∧ r.Answered place found s'.workspace (a.answer? i out) := by
  -- What leaves the store as it is leaves what it recalls, and no check has answered.
  have hleaves : ∀ {w}, s.workspace.Leaves place w → store.Ready place w ∧ r.Answered place found w none :=
    fun hleaves => ⟨hready.leaves hleaves, hready.recalls hleaves hrecalls⟩
  -- All acts but checks pass the store by.
  have hpasses (hcheck : ∀ k, a ≠ .check k) : (a.perform m store).Yields s fun _ s' =>
      store.Ready place s'.workspace ∧ r.Answered place found s'.workspace none := by
    have hpreserves : (a.perform m store).Preserves
        (Has (s.workspace.PassesBy (store.placeFrom? s.workspace.tree.base))) := by
      refine Act.preserves_perform (fun r' hr' => ?_) fun k _ hk => absurd hk (hcheck k)
      exact h.makeArtifact_leaves hstore (Act.mem_of_isFor hr')
    refine (hpreserves s (Workspace.PassesBy.refl hplain)).mono fun _ s' hs' => hleaves ?_
    rw [← hready.place_eq]
    exact hs'.leaves
  cases a with
  | ask q hq => exact hpasses fun k hk => by cases hk
  | make k j path => exact hpasses fun k hk => by cases hk
  | check k =>
    rcases hroot : m.root k with x | r'
    · rw [Yields, Act.perform, hroot]
      exact hleaves (.refl _ _)
    have hk := root_eq_ok.1 hroot
    have hdecides := h.checkBuild_decides (s := s.root k) hstore hplain (List.mem_of_getElem? hk) hready
    rw [Yields] at hdecides ⊢
    rw [Act.perform, hroot, outcome_bind, outcome_ofExcept]
    dsimp only
    rw [outcome_bind, Importing.onRoot, outcome_onto]
    rcases hout : (r'.checkBuild store).outcome (s.root k) with ⟨x | check, s'⟩
    · rw [hout] at hdecides
      exact hleaves hdecides.1
    · rw [hout] at hdecides
      obtain ⟨⟨hothers, found₁, found', hfound₁, hcheck, hrecalls', hunchanged⟩, hready'⟩ := hdecides
      refine ⟨hready', ?_⟩
      show r.Answered place found s'.workspace (if k = i then some check else none)
      -- A check of another root records under another directory.
      by_cases hki : k = i
      · subst hki
        cases hk.symm.trans hi
        rw [if_pos rfl, hrecalls.unique hfound₁]
        exact ⟨hcheck, found', hrecalls', hunchanged⟩
      · rw [if_neg hki]
        refine hothers _ _ (fun hdir => ?_) hrecalls
        have hne : r ≠ r' := fun heq => hki (h.position_eq hk (heq ▸ hi))
        exact h.not_territory (List.mem_of_getElem? hi) (List.mem_of_getElem? hk) hne (hdir ▸ territory_self _)

/-- **The answers about a root.** The first one goes by what was recorded of it, and all others find nothing
changed. -/
theorem answers_eq (h : m.Apart) (hstore : store.Beside m s.workspace.tree.base s.workspace.process)
    (hplain : s.workspace.tree.LinkFree) (hready : store.Ready place s.workspace) (hi : m.roots[i]? = some r)
    (hrecalls : s.workspace.Recalls place r.dir found) {as : List Act} {n : Nat} {check : BuildCheck}
    (hcheck : (m.answers store i s as)[n]? = some check) :
    check = if n = 0 then Root.compareBuild found r.tokens else .unchanged := by
  induction as generalizing s found n with
  | nil => cases hcheck
  | cons a as ih =>
    have hstep := h.perform_recalls hstore hplain hready a hi hrecalls
    obtain ⟨hplain', hbase, hprocess⟩ := run_plain m store hplain [a]
    rw [run, List.foldl_cons, List.foldl_nil] at hplain' hbase hprocess
    rw [← hbase, ← hprocess] at hstore
    rw [Yields] at hstep
    unfold answers at hcheck
    rcases hout : (a.perform m store).outcome s with ⟨out, s'⟩
    rw [hout] at hstep hcheck hplain' hstore
    obtain ⟨hready', hstep⟩ := hstep
    dsimp only at hcheck
    cases hanswer : a.answer? i out with
    -- The act was no check of the root: what is recalled is the same, and the answers are those to come.
    | none =>
      rw [hanswer] at hstep hcheck
      exact ih hstore hplain' hready' hstep hcheck
    -- The first check goes by what is recalled, and all later ones by what it has recorded.
    | some first =>
      rw [hanswer] at hstep hcheck
      obtain ⟨hfirst, found', hrecalls', hunchanged⟩ := hstep
      cases n with
      | zero =>
        cases hcheck
        exact hfirst
      | succ n =>
        have hlater := ih hstore hplain' hready' hrecalls' hcheck
        rw [hunchanged, ite_self] at hlater
        exact hlater

end Apart

/-! ## (3) Checks of all roots -/

/-- The answers about a root are those of the first act and those of the others. -/
theorem answers_cons (m : Importer) (store : RecordStore) (i : Nat) (s : ImporterState) (a : Act) (as : List Act) :
    m.answers store i s (a :: as) = (a.answer? i ((a.perform m store).outcome s).1).toList ++
      m.answers store i ((a.perform m store).outcome s).2 as := rfl

/-- What a check of one root answers and leaves. -/
theorem outcome_check (store : RecordStore) (s : ImporterState) (hi : m.roots[i]? = some r) :
    ((Act.check i).perform m store).outcome s =
    (((Importing.onRoot i (r.checkBuild store)).outcome s).1.map some,
      ((Importing.onRoot i (r.checkBuild store)).outcome s).2) := by
  rw [Act.perform, root_eq_ok.2 hi, outcome_bind, outcome_ofExcept]
  dsimp only
  rw [outcome_bind]
  rcases (Importing.onRoot i (r.checkBuild store)).outcome s with ⟨x | check, s'⟩ <;> rfl

/-- Roots that are checked in turn, from a position on. -/
theorem mapM_checks (store : RecordStore) (s : ImporterState) (k : Nat) {rs : List Root}
    (hrs : ∀ j r, rs[j]? = some r → m.roots[k + j]? = some r) :
    ((rs.zipIdx k).mapM fun p => Importing.onRoot p.2 (p.1.checkBuild store)).Yields s fun out s' =>
      (∃ n, s' = m.run store s ((List.range' k n).map .check)) ∧
        ∀ checks, out = .ok checks → s' = m.run store s ((List.range' k rs.length).map .check) ∧
          ∀ i, m.answers store i s ((List.range' k rs.length).map .check) =
            if k ≤ i then checks[i - k]?.toList else [] := by
  induction rs generalizing k s with
  | nil =>
    refine ⟨⟨0, rfl⟩, ?_⟩
    rintro checks ⟨⟩
    exact ⟨rfl, fun i => by simp [answers]⟩
  | cons r rs ih =>
    have hk : m.roots[k]? = some r := hrs 0 r rfl
    have hcheck := outcome_check store s hk
    have hrest : ∀ j r', rs[j]? = some r' → m.roots[k + 1 + j]? = some r' := fun j r' hj =>
      Nat.add_assoc k 1 j ▸ Nat.add_comm 1 j ▸ hrs (j + 1) r' hj
    -- The checks to come are numbered from the next root on.
    have hnext : ∀ n, m.run store s ((List.range' k (n + 1)).map .check) =
        m.run store ((Importing.onRoot k (r.checkBuild store)).outcome s).2 ((List.range' (k + 1) n).map .check) := by
      intro n
      rw [List.range'_succ, List.map_cons, run, List.foldl_cons, hcheck]
      rfl
    rw [List.zipIdx_cons, List.mapM_cons]
    refine Yields.bind (P := fun out s₁ => (Importing.onRoot k (r.checkBuild store)).outcome s = (out, s₁)) rfl ?_ ?_
    · intro check s₁ hout
      rw [hout] at hcheck hnext
      refine (ih s₁ (k + 1) hrest).bind (fun checks s₂ hrun => ?_) fun x s₂ hrun => ?_
      · obtain ⟨-, hrun⟩ := hrun
        obtain ⟨hlast, hanswers⟩ := hrun checks rfl
        rw [yields_pure]
        refine ⟨⟨rs.length + 1, hlast.trans (hnext _).symm⟩, ?_⟩
        rintro _ ⟨⟩
        refine ⟨hlast.trans (hnext _).symm, fun i => ?_⟩
        rw [List.length_cons, List.range'_succ, List.map_cons, answers_cons, hcheck, hanswers]
        show (if k = i then some check else none).toList ++ _ = _
        rcases Nat.lt_trichotomy i k with hlt | rfl | hlt
        · rw [if_neg (by omega), if_neg (by omega), if_neg (by omega)]
          rfl
        · rw [if_pos rfl, if_neg (by omega), if_pos (Nat.le_refl _), Nat.sub_self]
          rfl
        · rw [if_neg (by omega), if_pos (by omega), if_pos (by omega), show i - k = i - (k + 1) + 1 by omega]
          rfl
      · obtain ⟨⟨n, hrun⟩, -⟩ := hrun
        refine ⟨⟨n + 1, hrun.trans (hnext n).symm⟩, fun checks hok => by cases hok⟩
    · intro x s₁ hout
      rw [hout] at hnext
      exact ⟨⟨1, (hnext 0).symm⟩, fun checks hok => by cases hok⟩

/-- **To check all roots** is to check each of them in turn, up to the first check that fails. If none does, the answers
are theirs. -/
theorem checkBuilds_yields (m : Importer) (store : RecordStore) (s : ImporterState) :
    (m.checkBuilds store).Yields s fun out s' =>
      (∃ n, s' = m.run store s ((List.range n).map .check)) ∧
        ∀ checks, out = .ok checks → s' = m.run store s ((List.range m.roots.length).map .check) ∧
          ∀ i, m.answers store i s ((List.range m.roots.length).map .check) = checks[i]?.toList := by
  have hall := mapM_checks store s 0 fun j r (hj : m.roots[j]? = some r) => (Nat.zero_add j).symm ▸ hj
  refine hall.mono ?_
  rintro out s' ⟨⟨n, hrun⟩, hchecks⟩
  rw [← List.range_eq_range'] at hrun
  refine ⟨⟨n, hrun⟩, fun checks hok => ?_⟩
  obtain ⟨hlast, hanswers⟩ := hchecks checks hok
  rw [← List.range_eq_range'] at hlast hanswers
  exact ⟨hlast, hanswers⟩

/-! ## (4) Isolation -/

/-- A store beside the roots of an importer is beside any of them. -/
theorem beside_alone {base : Place} {process : Nat} (h : store.Beside m base process) (hr : r ∈ m.roots) :
    store.Beside (m.alone r) base process :=
  ⟨h.direct, fun v hv r' hr' => h.files v hv r' (List.mem_singleton.1 hr' ▸ hr)⟩

/-- A root alone stands apart. -/
theorem Apart.alone (h : m.Apart) (hr : r ∈ m.roots) : (m.alone r).Apart :=
  ⟨fun r' hr' => h.straight r' (List.mem_singleton.1 hr' ▸ hr), List.pairwise_singleton _ _⟩

/-- A store beside the roots is ready where there are no links and all stands in directories. -/
theorem ready_of_beside {w : Workspace} (h : store.Beside m w.tree.base w.process) (hplain : w.tree.LinkFree)
    (hgrounded : w.tree.Grounded) (hclock : w.now.Writable) : store.Ready (store.placeFrom? w.tree.base) w :=
  ⟨rfl, h.direct, fun _ v target _ _ => hplain v target, fun _ _ => hgrounded.founded _ _, hclock⟩

/-- **Roots are isolated**, where no directory stands on the territory of another root and no file of the store does.
What is done for some roots leaves the directory of any other root, all it holds, and its lock file as they are, at
every moment and however it ends. And in whatever is done with the importer the answers about a root are those that
there are with the root alone: the first ones are the same, and so are the second ones, and so on. -/
theorem isolated {c : Settings} {host : Host} {w w' : Workspace} (hm : (ofSettings c host).outcome w = (.ok m, w'))
    (hstraight : c.Straight) (hspread : c.Spread) {s : ImporterState}
    (hstore : store.Beside m s.workspace.tree.base s.workspace.process) (hplain : s.workspace.tree.LinkFree)
    (hgrounded : s.workspace.tree.Grounded) (hclock : s.workspace.now.Writable) :
    (∀ (as : List Act) (a : Act), ∀ r ∈ m.roots, ¬ a.IsFor m r →
      Workspace.Obeys (Elsewhere (steps r.dir)) (m.run store s as).workspace (m.run store s (as ++ [a])).workspace) ∧
    ∀ i r, m.roots[i]? = some r → ∀ (as bs : List Act) (n : Nat) (check check' : BuildCheck),
      (m.answers store i s as)[n]? = some check → ((m.alone r).answers store 0 s bs)[n]? = some check' →
        check = check' := by
  have hapart := apart_of_settings hm hstraight hspread
  constructor
  · intro as a r hr hother
    exact hapart.leaves_territory hstore hplain hr as hother
  · intro i r hi as bs n check check' hcheck hcheck'
    have hr := List.mem_of_getElem? hi
    have hready := ready_of_beside hstore hplain hgrounded hclock
    obtain ⟨found, hrecalls⟩ := Workspace.exists_recalls s.workspace (store.placeFrom? s.workspace.tree.base) r.dir
    rw [hapart.answers_eq hstore hplain hready hi hrecalls hcheck]
    exact ((hapart.alone hr).answers_eq (beside_alone hstore hr) hplain hready rfl hrecalls hcheck').symm

/-- Settings with a root for each of some directories, and without layers. -/
def settingsOf (dirs : List String) : Settings :=
  { Settings.standard with roots := dirs.map fun dir => ⟨dir, [], []⟩ }

/-- The importer of such settings. -/
def ofDirs (dirs : List String) : Importer :=
  ⟨dirs.map fun dir => ⟨dir, [], [], Settings.standardTimeout⟩, Layout.standard, [Settings.standardLibraryDir],
    fun _ _ => .ok ()⟩

/-- Settings without layers open as the importer of their directories, and nothing is changed. -/
theorem outcome_settingsOf {dirs : List String} (hcheck : (settingsOf dirs).check = .ok ()) (w : Workspace) :
    (ofSettings (settingsOf dirs) fun _ _ => .ok ()).outcome w = (.ok (ofDirs dirs), w) := by
  have hroots : ∀ dirs : List String, ((dirs.map fun dir => (⟨dir, [], []⟩ : RootSettings)).mapM
      (openRoot Settings.standardTimeout)).outcome w = (.ok (ofDirs dirs).roots, w) := by
    intro dirs
    induction dirs with
    | nil => rfl
    | cons dir dirs ih =>
      have hroot : (openRoot Settings.standardTimeout ⟨dir, [], []⟩).outcome w =
          (.ok ⟨dir, [], [], Settings.standardTimeout⟩, w) := rfl
      rw [List.map_cons, List.mapM_cons, outcome_bind_ok hroot, outcome_bind_ok ih]
      rfl
  rw [ofSettings, hcheck]
  exact outcome_bind_ok (hroots dirs) _

/-- Settings are straight if their directories are absolute and go up nowhere. -/
theorem straight_settingsOf {dirs : List String} (h : ∀ dir ∈ dirs, isAbsolute dir = true ∧ ∀ s ∈ steps dir, s ≠ "..") :
    (settingsOf dirs).Straight := by
  intro r hr
  obtain ⟨dir, hdir, rfl⟩ := List.mem_map.1 hr
  exact ⟨(h dir hdir).1, (h dir hdir).2⟩

/-- The state over a tree of some directories with a file in each, in which nothing was done. -/
def filled (places : List Place) : ImporterState :=
  .ofWorkspace (.ofTree (places.foldl
    (fun t p => (t.bind p .directory).bind (p ++ ["f"]) (.file .empty Instant.epoch)) .empty))

/-- **A directory below another one** passes the check of settings, and the check of the outer root removes a file of
the inner one. -/
theorem nested_disturbed : (settingsOf ["/x", "/x/y"]).Straight ∧
    (ofSettings (settingsOf ["/x", "/x/y"]) fun _ _ => .ok ()).outcome (filled [["x"], ["x", "y"]]).workspace =
      (.ok (ofDirs ["/x", "/x/y"]), (filled [["x"], ["x", "y"]]).workspace) ∧
    (∀ r ∈ (ofDirs ["/x", "/x/y"]).roots, (Act.check 0).IsFor (ofDirs ["/x", "/x/y"]) r → r.dir = "/x") ∧
    ((filled [["x"], ["x", "y"]]).workspace.tree.read "/x/y/f").isOk = true ∧
    (((ofDirs ["/x", "/x/y"]).run .memory (filled [["x"], ["x", "y"]]) [.check 0]).workspace.tree.read
      "/x/y/f").isOk = false := by
  refine ⟨straight_settingsOf (by decide +kernel), outcome_settingsOf (by decide +kernel) _, ?_, by decide +kernel,
    by decide +kernel⟩
  rintro r - ⟨⟩
  rfl

/-- Two roots beside each other, with a store beside them: the check of one leaves the other alone, and of that other
one the first answer is the one that it has alone. -/
theorem twoRoots_isolated : ∃ check,
    Workspace.Obeys (Elsewhere (steps "/y")) (filled [["x"], ["y"]]).workspace
      ((ofDirs ["/x", "/y"]).run (.file "/s") (filled [["x"], ["y"]]) [.check 0]).workspace ∧
    ((ofDirs ["/x", "/y"]).answers (.file "/s") 1 (filled [["x"], ["y"]]) [.check 0, .check 1])[0]? = some check ∧
    (((ofDirs ["/x", "/y"]).alone ⟨"/y", [], [], Settings.standardTimeout⟩).answers (.file "/s") 0
      (filled [["x"], ["y"]]) [.check 0])[0]? = some check := by
  have hstraight : (settingsOf ["/x", "/y"]).Straight := straight_settingsOf (by decide +kernel)
  have hspread : (settingsOf ["/x", "/y"]).Spread := by
    unfold Settings.Spread
    decide +kernel
  have hstore : (RecordStore.file "/s").Beside (ofDirs ["/x", "/y"]) [] 1 := by
    refine ⟨?_, ?_⟩
    · rintro _ ⟨⟩
      exact ⟨by decide +kernel, by decide +kernel⟩
    · have hfiles : ∀ v ∈ [placeFrom [] "/s", RecordStore.temporaryPlace (placeFrom [] "/s") 1],
          ∀ dir ∈ ["/x", "/y"], ¬ steps dir <+: v ∧ ¬ Lock.place (steps dir) <+: v := by decide +kernel
      rintro v ⟨_, ⟨⟩, hv⟩ r hr hterritory
      obtain ⟨dir, hdir, rfl⟩ := List.mem_map.1 hr
      obtain ⟨hout, hlock⟩ := hfiles v (by simpa using hv) dir hdir
      exact hterritory.elim hout hlock
  have hplain : (filled [["x"], ["y"]]).workspace.tree.LinkFree := linkFree_of_nodes (by decide +kernel)
  have hgrounded : (filled [["x"], ["y"]]).workspace.tree.Grounded :=
    grounded_of_nodes (by decide +kernel) (by decide +kernel)
  have hbase : (filled [["x"], ["y"]]).workspace.tree.base = [] := by decide +kernel
  have hprocess : (filled [["x"], ["y"]]).workspace.process = 1 := by decide +kernel
  have hclock : (filled [["x"], ["y"]]).workspace.now = ⟨0, 0⟩ := by decide +kernel
  have hfirst : ((ofDirs ["/x", "/y"]).answers (.file "/s") 1 (filled [["x"], ["y"]]) [.check 0, .check 1])[0]?.isSome =
      true := by decide +kernel
  have halone : (((ofDirs ["/x", "/y"]).alone ⟨"/y", [], [], Settings.standardTimeout⟩).answers (.file "/s") 0
      (filled [["x"], ["y"]]) [.check 0])[0]?.isSome = true := by decide +kernel
  -- From here on the state is told by these facts alone.
  generalize filled [["x"], ["y"]] = s at *
  have hbeside : (RecordStore.file "/s").Beside (ofDirs ["/x", "/y"]) s.workspace.tree.base s.workspace.process := by
    rw [hbase, hprocess]
    exact hstore
  obtain ⟨hleaves, hanswers⟩ := isolated (outcome_settingsOf (by decide +kernel) s.workspace) hstraight hspread hbeside
    hplain hgrounded (hclock ▸ ⟨by decide, by decide, .inl (by decide)⟩)
  obtain ⟨check, hcheck⟩ := Option.isSome_iff_exists.1 hfirst
  obtain ⟨check', hcheck'⟩ := Option.isSome_iff_exists.1 halone
  cases hanswers 1 ⟨"/y", [], [], Settings.standardTimeout⟩ rfl _ _ 0 check check' hcheck hcheck'
  refine ⟨check, ?_, hcheck, hcheck'⟩
  refine hleaves [] (.check 0) ⟨"/y", [], [], Settings.standardTimeout⟩ (by simp [ofDirs]) ?_
  intro hfor
  have hdir : some "/x" = some "/y" := congrArg (Option.map Root.dir) hfor
  exact absurd hdir (by decide)

end Importer

end LayeredBundles
