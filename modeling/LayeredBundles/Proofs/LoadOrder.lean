import LayeredBundles.Proofs.Walks

/-! # Libraries are loaded before those that need them

An importer is asked again and again to load what a file needs, or a shared binary, which comes after all that it
needs. Each request is a walk that goes on where the ones before it ended, so the walks of all requests make one orderly
list, and the log of the host is that list with the binaries in between.

* **`Importer.History`** — requests to an importer, one after another, with all that its host was asked for;
* **`Importer.libraries_first`** — the order of the whole log of the host. -/

namespace LayeredBundles

open Fallible

/-! ## (1) Requests that load -/

namespace Importer

open Loader

/-- A request to an importer that has libraries loaded. -/
inductive LoadRequest where
  /-- All that the file at a path needs, where the copies are those of a locator. -/
  | needs (locator : Locator) (path : String)
  /-- A shared binary. -/
  | binary (u : FoundUnit)

/-- What the host is asked for. -/
inductive LoadEvent where
  /-- A library that is needed. -/
  | library (a : Attempt)
  /-- The shared binary of a unit, at a path. -/
  | binary (u : FoundUnit) (path : String)

/-- The call by which the host is asked. -/
def LoadEvent.call : LoadEvent → HostCall
  | .library a => a.call
  | .binary _ path => .path path

/-- The attempt at a library, if it is one. -/
def LoadEvent.attempt? : LoadEvent → Option Attempt
  | .library a => some a
  | .binary .. => none

/-- The attempts among the events. -/
def libraries (events : List LoadEvent) : List Attempt := events.filterMap LoadEvent.attempt?

variable {m : Importer} {g : Shelf} {I : Workspace → Prop} {s s' s₀ : ImporterState} {q : LoadRequest}
  {qs : List LoadRequest} {events new : List LoadEvent} {log : List Attempt}

/-- A request, performed. -/
def LoadRequest.run (m : Importer) : LoadRequest → Importing Unit
  | .needs locator path => ((Loader.loadNeeds m.host locator path).failingAs .native).onto (·.toLoaderState)
      fun l s => { s with toLoaderState := l }
  | .binary u => do
    let _ ← m.loadBinary u

/-- The state after a sequence of requests. -/
def afterLoads (m : Importer) (s : ImporterState) (qs : List LoadRequest) : ImporterState :=
  qs.foldl (fun s q => ((q.run m).outcome s).2) s

/-- `m.Answers s q new s'`: in state `s`, a request makes the importer ask its host for `new`, the last one first, and
leaves `s'`. -/
inductive Answers (m : Importer) (s : ImporterState) : LoadRequest → List LoadEvent → ImporterState → Prop where
  /-- The request fails before the host is asked. -/
  | refused {q : LoadRequest} {e : ImportFailure} {s' : ImporterState} (hrun : (q.run m).outcome s = (.error e, s'))
      (hrecord : s'.record = s.record) (hcalls : s'.calls = s.calls) : Answers m s q [] s'
  /-- What a file needs is loaded. -/
  | needs {locator : Locator} {path : String} {names : List String} {log : List Attempt} {l : LoaderState}
      (hfile : ((Elf.neededOf path).outcome s.workspace).1 = .ok names)
      (htrace : Traces m.host locator names s.toLoaderState log l) :
      Answers m s (.needs locator path) (log.map .library) { s with toLoaderState := l }
  /-- The artifact of a binary is made, what it needs is loaded, and the host is asked for the binary. -/
  | binary {u : FoundUnit} {r : Root} {path : String} {s₁ : ImporterState} {names : List String} {log : List Attempt}
      {l : LoaderState} (hroot : m.root u.rootIndex = .ok r)
      (hmake : (Importing.onRoot u.rootIndex (r.makeArtifact u.layerIndex u.path)).outcome s = (.ok path, s₁))
      (hfile : ((Elf.neededOf path).outcome s₁.workspace).1 = .ok names)
      (htrace : Traces m.host (m.locator r) names s₁.toLoaderState log l) :
      Answers m s (.binary u) (.binary u path :: log.map .library)
        { s₁ with toLoaderState := { l with calls := .path path :: l.calls } }

/-- Loading what a file needs ends by the rules. -/
theorem run_needs_cases (m : Importer) (s : ImporterState) (locator : Locator) (path : String) :
    (∃ e, ((LoadRequest.needs locator path).run m).outcome s = (.error e, s)) ∨
      ∃ names log l, ((Elf.neededOf path).outcome s.workspace).1 = .ok names ∧
        Traces m.host locator names s.toLoaderState log l ∧
        ((LoadRequest.needs locator path).run m).outcome s = (.ok (), { s with toLoaderState := l }) := by
  rw [LoadRequest.run, outcome_onto, outcome_failingAs]
  have hfinishes := finishes_loadNeeds m.host locator path s.toLoaderState
  generalize (Loader.loadNeeds m.host locator path).outcome s.toLoaderState = out at hfinishes
  cases hfinishes with
  | failed hfile => exact .inl ⟨_, rfl⟩
  | loaded hfile hloads =>
    obtain ⟨log, hlog⟩ := hloads.exists_traces
    exact .inr ⟨_, log, _, hfile, hlog, rfl⟩

/-- Work on a root touches neither the record nor the log. -/
theorem onRoot_loaderState {α : Type} (i : Nat) (a : RootWork α) (s : ImporterState) :
    ((Importing.onRoot i a).outcome s).2.toLoaderState
      = { s.toLoaderState with workspace := ((Importing.onRoot i a).outcome s).2.workspace } := rfl

/-- A binary is prepared by the rules, or it is given up before, at the latest when its artifact was made. -/
theorem prepareBinary_cases (m : Importer) (s : ImporterState) (u : FoundUnit) :
    (∃ e s', (m.prepareBinary u).outcome s = (.error e, s') ∧ (s' = s ∨ ∃ r, m.root u.rootIndex = .ok r ∧
      s' = ((Importing.onRoot u.rootIndex (r.makeArtifact u.layerIndex u.path)).outcome s).2)) ∨
      ∃ r path s₁ names log l, m.root u.rootIndex = .ok r ∧
        (Importing.onRoot u.rootIndex (r.makeArtifact u.layerIndex u.path)).outcome s = (.ok path, s₁) ∧
        ((Elf.neededOf path).outcome s₁.workspace).1 = .ok names ∧
        Traces m.host (m.locator r) names s₁.toLoaderState log l ∧
        (m.prepareBinary u).outcome s = (.ok path, { s₁ with toLoaderState := l }) := by
  unfold prepareBinary
  dsimp only
  split
  · exact .inl ⟨_, s, outcome_bind_error (outcome_throw _ s) _, .inl rfl⟩
  rcases hroot : m.root u.rootIndex with e | r
  · exact .inl ⟨e, s, outcome_bind_error (outcome_ofExcept (.error e) s) _, .inl rfl⟩
  rw [outcome_bind_ok (outcome_ofExcept (.ok r) s)]
  rcases hmake : (Importing.onRoot u.rootIndex (r.makeArtifact u.layerIndex u.path)).outcome s with ⟨e | path, s₁⟩
  · exact .inl ⟨e, s₁, outcome_bind_error hmake _, .inr ⟨r, rfl, by rw [hmake]⟩⟩
  rw [outcome_bind_ok hmake]
  rcases run_needs_cases m s₁ (m.locator r) path with ⟨e, hrun⟩ | ⟨names, log, l, hfile, htrace, hrun⟩
  · exact .inl ⟨e, s₁, outcome_bind_error hrun _, .inr ⟨r, rfl, by rw [hmake]⟩⟩
  · exact .inr ⟨r, path, s₁, names, log, l, rfl, hmake, hfile, htrace, outcome_bind_ok hrun _⟩

/-- **Every request is answered by the rules.** -/
theorem exists_answers (m : Importer) (s : ImporterState) (q : LoadRequest) :
    ∃ new, m.Answers s q new ((q.run m).outcome s).2 := by
  cases q with
  | needs locator path =>
    rcases run_needs_cases m s locator path with ⟨e, hrun⟩ | ⟨names, log, l, hfile, htrace, hrun⟩
    · refine ⟨[], ?_⟩
      rw [hrun]
      exact .refused hrun rfl rfl
    · rw [hrun]
      exact ⟨_, .needs hfile htrace⟩
  | binary u =>
    rcases prepareBinary_cases m s u with ⟨e, s', hrun, hs'⟩ |
      ⟨r, path, s₁, names, log, l, hroot, hmake, hfile, htrace, hrun⟩
    · -- Preparing has failed before anything was loaded.
      have hsame : s'.record = s.record ∧ s'.calls = s.calls := by
        rcases hs' with rfl | ⟨r, -, rfl⟩ <;> exact ⟨rfl, rfl⟩
      have hload : (m.loadBinary u).outcome s = (.error e, s') := by
        rw [loadBinary]
        exact outcome_bind_error hrun _
      have hrun' : ((LoadRequest.binary u).run m).outcome s = (.error e, s') := outcome_bind_error hload _
      rw [hrun']
      exact ⟨[], .refused hrun' hsame.1 hsame.2⟩
    · -- The binary itself is the last call.
      have hload : ((m.loadBinary u).outcome s).2
          = { s₁ with toLoaderState := { l with calls := .path path :: l.calls } } := by
        rw [loadBinary, outcome_bind_ok hrun, outcome_bind, outcome_ofOutcome]
        dsimp only [ask, StateT.run]
        rcases m.host l.calls (.path path) with reason | ⟨⟨⟩⟩ <;> rfl
      have hrun' : (((LoadRequest.binary u).run m).outcome s).2 = ((m.loadBinary u).outcome s).2 := by
        rw [LoadRequest.run, outcome_bind]
        rcases (m.loadBinary u).outcome s with ⟨e | p, s'⟩ <;> rfl
      rw [hrun', hload]
      exact ⟨_, .binary hroot hmake hfile htrace⟩

/-- `m.History s₀ qs events s`: beginning in `s₀`, these requests make the importer ask its host for these events, the
last one first, and lead to `s`. -/
inductive History (m : Importer) (s₀ : ImporterState) : List LoadRequest → List LoadEvent → ImporterState → Prop where
  /-- Nothing was requested. -/
  | start : History m s₀ [] [] s₀
  /-- One more request, whether it ends well or not. -/
  | step {qs : List LoadRequest} {events new : List LoadEvent} {s : ImporterState} (past : History m s₀ qs events s)
      (q : LoadRequest) (hnew : m.Answers s q new ((q.run m).outcome s).2) :
      History m s₀ (qs ++ [q]) (new ++ events) ((q.run m).outcome s).2

/-- Every sequence of requests has a history. -/
theorem exists_history (m : Importer) (s₀ : ImporterState) (qs : List LoadRequest) :
    ∃ events, m.History s₀ qs events (m.afterLoads s₀ qs) := by
  induction qs using List.reverseRecOn with
  | nil => exact ⟨[], .start⟩
  | append_singleton qs q ih =>
    obtain ⟨events, past⟩ := ih
    obtain ⟨new, hnew⟩ := exists_answers m (m.afterLoads s₀ qs) q
    rw [afterLoads, List.foldl_append]
    exact ⟨_, past.step q hnew⟩

/-! ## (2) The order of the log -/

/-- What a request may not disturb: the copies that are found, and the artifacts of binaries, hold what the shelf says
in all workspaces that satisfy `I`, and `I` stays true. -/
def LoadRequest.Suits (m : Importer) (g : Shelf) (I : Workspace → Prop) : LoadRequest → Prop
  | .needs locator _ => g.Stands locator I
  | .binary u => ∀ r, m.root u.rootIndex = .ok r → g.Stands (m.locator r) I ∧
      (Importing.onRoot u.rootIndex (r.makeArtifact u.layerIndex u.path)).Preserves (Has I) ∧
      ∀ s s' path, I s.workspace →
        (Importing.onRoot u.rootIndex (r.makeArtifact u.layerIndex u.path)).outcome s = (.ok path, s') →
        ((Workspace.read path).outcome s'.workspace).1.toOption = g.content path

/-- What a request may not disturb it does not. -/
theorem LoadRequest.Suits.preserves (hq : q.Suits m g I) : (q.run m).Preserves (Has I) := by
  cases q with
  | needs locator path =>
    intro s hs
    rw [Yields]
    rcases run_needs_cases m s locator path with ⟨e, hrun⟩ | ⟨names, log, l, -, htrace, hrun⟩
    · rw [hrun]
      exact hs
    · rw [hrun]
      exact (htrace.reached hq.locates hs).2
  | binary u =>
    have hprepare : (m.prepareBinary u).Preserves (Has I) := by
      intro s hs
      rw [Yields]
      rcases prepareBinary_cases m s u with ⟨e, s', hrun, rfl | ⟨r, hroot, rfl⟩⟩ |
        ⟨r, path, s₁, names, log, l, hroot, hmake, -, htrace, hrun⟩
      · rw [hrun]
        exact hs
      · rw [hrun]
        exact (hq r hroot).2.1 s hs
      · rw [hrun]
        have hs₁ := ((hq r hroot).2.1 s hs).of_outcome hmake
        exact (htrace.reached (hq r hroot).1.locates hs₁).2
    exact (preserves_loadBinary hprepare).bind fun _ => preserves_pure _

/-- `InOrder g calls events s`: these events, the last one first, are all that the host was asked for since `calls`,
and what is needed comes first. -/
structure InOrder (g : Shelf) (calls : List HostCall) (events : List LoadEvent) (s : LoaderState) : Prop where
  /-- The log of the host. -/
  calls : s.calls = events.map LoadEvent.call ++ calls
  /-- Recorded is what was attempted. -/
  recorded : ∀ n, Recorded s n ↔ n ∈ (libraries events).map Attempt.name
  /-- No name is attempted twice. -/
  nodup : ((libraries events).map Attempt.name).Nodup
  /-- What is needed is attempted first, but for circles. -/
  orderly : g.setting.Orderly (fun _ => False) (libraries events)
  /-- A binary comes after all that it declares. -/
  binaries : ∀ later u path earlier, events = later ++ .binary u path :: earlier → ∃ names,
    g.declares path = some names ∧ ∀ d ∈ names, d ≠ "" → d ∈ (libraries earlier).map Attempt.name

/-- The libraries among more events are those of either part. -/
theorem libraries_append (new events : List LoadEvent) :
    libraries (new ++ events) = libraries new ++ libraries events := List.filterMap_append

/-- Attempts noted as events are the libraries among them. -/
theorem libraries_map_library (log : List Attempt) : libraries (log.map .library) = log := by
  rw [libraries, List.filterMap_map]
  exact List.filterMap_some

/-- A walk goes on in order. -/
theorem InOrder.trace {calls : List HostCall} {locator : Locator} {names : List String} {l l' : LoaderState}
    (h : InOrder g calls events l) (hg : g.Stands locator I) (hl : I l.workspace)
    (htrace : Traces m.host locator names l log l') : InOrder g calls (log.map .library ++ events) l' := by
  have hadded := htrace.extends
  refine {
    calls := ?_, recorded := fun n => ?_, nodup := ?_, orderly := ?_
    binaries := fun later u path earlier hsplit => ?_ }
  · rw [hadded.calls, h.calls, List.map_append, List.map_map, List.append_assoc]
    rfl
  · rw [hadded.recorded, h.recorded, libraries_append, libraries_map_library, List.map_append, List.mem_append]
    exact or_comm
  · rw [libraries_append, libraries_map_library, List.map_append, List.nodup_append]
    refine ⟨hadded.nodup, h.nodup, fun n hn n' hn' heq => ?_⟩
    obtain ⟨a, ha, rfl⟩ := List.mem_map.1 hn
    exact hadded.unrecorded a ha ((h.recorded _).2 (heq ▸ hn'))
  · rw [libraries_append, libraries_map_library]
    refine h.orderly.append ((htrace.orderly hg.locates hl).mono fun a _ d hd => .inl (.inr ?_))
    exact (h.recorded d).1 hd
  -- A binary is none of the new events, so it stands among the old ones.
  · rcases List.append_eq_append_iff.1 hsplit with ⟨between, -, hevents⟩ | ⟨between, hnew, hrest⟩
    · exact h.binaries between u path earlier hevents
    · rcases List.cons_eq_append_iff.1 hrest with ⟨-, hevents⟩ | ⟨between', rfl, -⟩
      · exact h.binaries [] u path earlier hevents
      · have hmem : LoadEvent.binary u path ∈ log.map LoadEvent.library := hnew ▸ by simp
        obtain ⟨a, -, ha⟩ := List.mem_map.1 hmem
        cases ha

/-- **One request** goes on in order. -/
theorem InOrder.answers {calls : List HostCall} (h : InOrder g calls events s.toLoaderState) (hq : q.Suits m g I)
    (hs : I s.workspace) (hnew : m.Answers s q new s') : InOrder g calls (new ++ events) s'.toLoaderState := by
  cases hnew with
  | refused hrun hrecord hcalls =>
    refine { h with calls := hcalls.trans h.calls, recorded := fun n => ?_ }
    rw [Recorded, hrecord]
    exact h.recorded n
  | needs hfile htrace => exact h.trace hq hs htrace
  | @binary u r path s₁ names log l hroot hmake hfile htrace =>
    obtain ⟨hstands, hkeeps, hcontent⟩ := hq r hroot
    have hs₁ : I s₁.workspace := by
      have hkept := hkeeps s hs
      rwa [Yields, hmake] at hkept
    have hsame : s₁.toLoaderState = { s.toLoaderState with workspace := s₁.workspace } := by
      have hkept := onRoot_loaderState u.rootIndex (r.makeArtifact u.layerIndex u.path) s
      rwa [hmake] at hkept
    have hmade : InOrder g calls events s₁.toLoaderState := by
      rw [hsame]
      exact { h with }
    have hwalked := hmade.trace hstands hs₁ htrace
    refine
      { calls := congrArg (HostCall.path path :: ·) hwalked.calls, recorded := hwalked.recorded,
        nodup := hwalked.nodup, orderly := hwalked.orderly, binaries := fun later u' path' earlier hsplit => ?_ }
    cases later with
    -- The binary itself: all that it needs was recorded by the walk before.
    | nil =>
      cases hsplit
      have hneeds : some names = (g.declares path).map Elf.distinct := by
        rw [Shelf.declares, ← hcontent s s₁ path hs hmake, ← Shelf.toOption_neededOf, hfile]
        rfl
      obtain ⟨names', hnames', rfl⟩ := Option.map_eq_some_iff.1 hneeds.symm
      refine ⟨names', hnames', fun d hd hne => (hwalked.recorded d).1 (htrace.loads.all d ?_)⟩
      exact Elf.mem_distinct.2 ⟨hd, hne⟩
    | cons e later => exact hwalked.binaries later u' path' earlier (List.cons.inj hsplit).2

/-- **A whole history** is in order, if it begins without a record. -/
theorem History.inOrder (hsuits : ∀ q ∈ qs, q.Suits m g I) (hs₀ : I s₀.workspace) (hempty : s₀.record = [])
    (h : m.History s₀ qs events s) : InOrder g s₀.calls events s.toLoaderState ∧ I s.workspace := by
  induction h with
  | start =>
    have hnone : ∀ n, ¬ Recorded s₀.toLoaderState n := fun n hn => by simp [Recorded, Table.contains, hempty] at hn
    refine ⟨{ calls := rfl, recorded := fun n => ?_, nodup := List.nodup_nil, orderly := trivial,
              binaries := fun later u path earlier hsplit => ?_ }, hs₀⟩
    · exact ⟨fun hn => absurd hn (hnone n), fun hn => absurd hn List.not_mem_nil⟩
    · exact absurd hsplit.symm (by simp)
  | step past q hnew ih =>
    obtain ⟨hbefore, hs⟩ := ih fun q' hq' => hsuits q' (List.mem_append_left _ hq')
    have hq := hsuits q (by simp)
    exact ⟨hbefore.answers hq hs hnew, hq.preserves _ hs⟩

/-- **Libraries are loaded before those that need them.** Files and locators being as a shelf says, take any sequence
of requests that begins without a record. It has a history; and in every history of it the log of the host grows by
the events of the history, where each name on record was asked for once and no other name was. Let the copy of `n`
declare `d`, which is not empty: `d` was asked for before `n`, unless `n` can be reached from `d` through what copies
declare. When the host is asked for a shared binary, every name that the binary declares, other than the empty one, was
asked for. So if no library can be reached from what it needs itself, what is needed always comes first. -/
theorem libraries_first (hsuits : ∀ q ∈ qs, q.Suits m g I) (hs₀ : I s₀.workspace) (hempty : s₀.record = []) :
    (∃ events, m.History s₀ qs events (m.afterLoads s₀ qs)) ∧ ∀ events s, m.History s₀ qs events s →
      s.calls = events.map LoadEvent.call ++ s₀.calls ∧
      (∀ n, Recorded s.toLoaderState n ↔ n ∈ (libraries events).map Attempt.name) ∧
      ((libraries events).map Attempt.name).Nodup ∧
      (∀ later a earlier, libraries events = later ++ a :: earlier → a.found = g.found a.name ∧
        ∀ d, g.Needs a.name d → d ∈ earlier.map Attempt.name ∨ Relation.ReflTransGen g.Needs d a.name) ∧
      (∀ later u path earlier, events = later ++ .binary u path :: earlier → ∃ names,
        g.declares path = some names ∧ ∀ d ∈ names, d ≠ "" → d ∈ (libraries earlier).map Attempt.name) ∧
      ((∀ n, ¬ Relation.TransGen g.Needs n n) → ∀ later a earlier, libraries events = later ++ a :: earlier →
        ∀ d, g.Needs a.name d → d ∈ earlier.map Attempt.name) := by
  refine ⟨exists_history m s₀ qs, fun events s hhistory => ?_⟩
  obtain ⟨hlog, -⟩ := hhistory.inOrder hsuits hs₀ hempty
  have horder : ∀ later a earlier, libraries events = later ++ a :: earlier → a.found = g.found a.name ∧
      ∀ d, g.Needs a.name d → d ∈ earlier.map Attempt.name ∨ Relation.ReflTransGen g.Needs d a.name := by
    intro later a earlier hsplit
    have hrest := hlog.orderly
    rw [hsplit] at hrest
    obtain ⟨hfound, hdeps⟩ := hrest.of_append.1
    refine ⟨hfound, fun d hd => ?_⟩
    rcases hdeps d ((Shelf.needs_setting a.name d).2 hd) with hd | hd | hd
    · exact .inl hd
    · exact hd.elim
    · exact .inr (Shelf.reaches_setting hd)
  refine ⟨hlog.calls, hlog.recorded, hlog.nodup, horder, hlog.binaries, fun hacyclic later a earlier hsplit d hd => ?_⟩
  -- Without circles the other case is none: a library that leads back would need itself.
  rcases (horder later a earlier hsplit).2 d hd with hearlier | hcircle
  · exact hearlier
  · exact absurd (Relation.TransGen.head' hd hcircle) (hacyclic a.name)

/-! ## (3) A binary and its library -/

/-- Whether the artifact of a path stands at a destination and is fresh. -/
def isCurrent (t : FileTree) (dir : String) (l : Layer) (path dest : String) : Bool :=
  match l.entry path with
  | .ok e => !e.isDir && decide (Extraction.artifactPath dir e.path = .ok dest) && Extraction.isFresh t dest e
  | .error _ => false

/-- What is current is left as it is. -/
theorem makeArtifact_of_isCurrent {dir path dest : String} {l : Layer} {w : Workspace}
    (h : isCurrent w.tree dir l path dest = true) : (Extraction.makeArtifact dir l path).outcome w = (.ok dest, w) := by
  unfold isCurrent at h
  split at h
  · next e hentry =>
    simp only [Bool.and_eq_true, Bool.not_eq_true', decide_eq_true_eq] at h
    obtain ⟨⟨hfile, hdest⟩, hfresh⟩ := h
    unfold Extraction.makeArtifact
    simp only [outcome_bind, outcome_ofExcept, hentry, Except.mapError, hfile, hdest, outcome_get, hfresh,
      Bool.false_eq_true, ↓reduceIte, outcome_pure]
  · cases h

/-- The layer of a shared binary that needs `libz.so`, and of a copy of that library. -/
def shelvedLayer (library : ByteArray) : Layer := .ofFiles "a" 0 [("m.so", needingZ), ("lib/libz.so", library)]

/-- The root of that layer. -/
def shelvedRoot (library : ByteArray) : Root := ⟨"/x", [.opened (shelvedLayer library) none], [], 1⟩

/-- The importer of that root. -/
def shelved (library : ByteArray) : Importer := .new [shelvedRoot library] Layout.standard fun _ _ => .ok ()

/-- The tree in which both files have their artifacts. -/
def shelvedTree (library : ByteArray) : FileTree :=
  FileTree.empty.bind ["x"] .directory |>.bind ["x", "m.so"] (.file needingZ .epoch) |>.bind ["x", "lib"] .directory
    |>.bind ["x", "lib", "libz.so"] (.file library .epoch)

/-- What files hold, and where the copy is found. -/
def shelf (library : ByteArray) : Shelf :=
  ⟨fun n => if n = "libz.so" then some "/x/lib/libz.so" else none,
    fun path => ((shelvedTree library).read path).toOption⟩

/-- The state in which nothing was loaded. -/
def shelvedState (library : ByteArray) : ImporterState := .ofWorkspace (.ofTree (shelvedTree library))

/-- The binary. -/
def shelvedUnit : FoundUnit := ⟨"m", .native, .module, 0, "/x", 0, "a", "m.so", none⟩

/-- Where both artifacts are current, loading the binary disturbs nothing. -/
theorem shelved_suits {library : ByteArray}
    (hbinary : isCurrent (shelvedTree library) "/x" (shelvedLayer library) "m.so" "/x/m.so" = true)
    (hlibrary : isCurrent (shelvedTree library) "/x" (shelvedLayer library) "lib/libz.so" "/x/lib/libz.so" = true)
    (hnames : (shelvedRoot library).libraryNames = [".", "libz.so", "m.so"])
    (hfound : [".", "libz.so", "m.so"].map
      (fun n => ((shelvedRoot library).findLibrary? [Settings.standardLibraryDir] n).map Prod.snd)
        = [none, some "lib/libz.so", none]) :
    (LoadRequest.binary shelvedUnit).Suits (shelved library) (shelf library) (·.tree = shelvedTree library) := by
  have hlisted : ((shelved library).locator (shelvedRoot library)).names = [".", "libz.so", "m.so"] := hnames
  -- Of the three names that may be found, one has a copy, and that is current.
  have hlocate : ∀ n ∈ ((shelved library).locator (shelvedRoot library)).names, ∀ w : Workspace,
      w.tree = shelvedTree library → (((shelved library).locator (shelvedRoot library)).locate n).outcome w =
        (.ok ((shelf library).found n), w) := by
    simp only [List.map_cons, List.map_nil, List.cons.injEq, Option.map_eq_none_iff, Option.map_eq_some_iff] at hfound
    obtain ⟨hdot, ⟨⟨l, path⟩, hz, rfl⟩, hm, -⟩ := hfound
    obtain ⟨i, hfirst⟩ := Root.first?_of_findLibrary? hz
    have hl : l = shelvedLayer library := by
      have hmem : (i, l) ∈ [(0, shelvedLayer library)] := Root.mem_of_first? hfirst
      exact congrArg Prod.snd (List.mem_singleton.1 hmem)
    intro n hn w hw
    change ((shelvedRoot library).locateLibrary [Settings.standardLibraryDir] n).outcome w = _
    rw [Root.locateLibrary]
    simp only [hlisted, List.mem_cons, List.not_mem_nil, or_false] at hn
    rcases hn with rfl | rfl | rfl
    · rw [hdot]
      rfl
    · rw [hz, hl]
      exact outcome_bind_ok (makeArtifact_of_isCurrent (hw ▸ hlibrary)) _
    · rw [hm]
      rfl
  -- So is the binary itself.
  have hmake : ∀ s : ImporterState, s.workspace.tree = shelvedTree library →
      (Importing.onRoot shelvedUnit.rootIndex
        ((shelvedRoot library).makeArtifact shelvedUnit.layerIndex shelvedUnit.path)).outcome s
          = (.ok "/x/m.so", s.withRoot 0 (s.root 0)) := by
    intro s hs
    have hcurrent : (Extraction.makeArtifact (shelvedRoot library).dir (shelvedLayer library) shelvedUnit.path).outcome
        (s.root shelvedUnit.rootIndex).workspace = (.ok "/x/m.so", (s.root shelvedUnit.rootIndex).workspace) :=
      makeArtifact_of_isCurrent (hs ▸ hbinary)
    have hlayer : (shelvedRoot library).layerAt shelvedUnit.layerIndex = .ok (shelvedLayer library) := rfl
    rw [Importing.onRoot, outcome_onto, Root.makeArtifact, hlayer, outcome_bind_ok (outcome_ofExcept (.ok _) _),
      RootWork.ofWork, outcome_onto, hcurrent]
    rfl
  intro r hr
  cases hr
  refine ⟨{ unlisted := fun n hn => if_neg fun heq => hn ?_, located := fun w hw n hn => ?_,
            kept := fun w hw n hn => ?_, content := fun w hw n hn path hpath => ?_ },
    fun s hs => ?_, fun s s' path hs hout => ?_⟩
  · rw [hlisted, heq]
    simp
  · rw [hlocate n hn w hw]
    rfl
  · rw [hlocate n hn w hw]
    exact hw
  · rw [hlocate n hn w hw]
    exact congrArg (fun t => (FileTree.read t path).toOption) hw
  · rw [Yields, hmake s hs]
    exact hs
  · rw [hmake s hs] at hout
    cases hout
    exact congrArg (fun t => (FileTree.read t "/x/m.so").toOption) hs

/-- Where the library is the binary's twin, and so needs itself, it is loaded before the binary all the same. -/
theorem shelved_first :
    (∀ q ∈ [LoadRequest.binary shelvedUnit],
        q.Suits (shelved needingZ) (shelf needingZ) (·.tree = shelvedTree needingZ)) ∧
      (shelvedState needingZ).record = [] ∧
      ((shelved needingZ).afterLoads (shelvedState needingZ) [.binary shelvedUnit]).calls
        = [.path "/x/m.so", .path "/x/lib/libz.so"] ∧
      ∃ events, (shelved needingZ).History (shelvedState needingZ) [.binary shelvedUnit] events
          ((shelved needingZ).afterLoads (shelvedState needingZ) [.binary shelvedUnit]) ∧
        events.map LoadEvent.call = [.path "/x/m.so", .path "/x/lib/libz.so"] ∧
        "libz.so" ∈ (libraries events).map Attempt.name := by
  have hsuits : ∀ q ∈ [LoadRequest.binary shelvedUnit],
      q.Suits (shelved needingZ) (shelf needingZ) (·.tree = shelvedTree needingZ) := by
    intro q hq
    cases List.mem_singleton.1 hq
    exact shelved_suits (by decide +kernel) (by decide +kernel) (by decide +kernel) (by decide +kernel)
  have hcalls : ((shelved needingZ).afterLoads (shelvedState needingZ) [.binary shelvedUnit]).calls
      = [.path "/x/m.so", .path "/x/lib/libz.so"] := by decide +kernel
  have hstart : (shelvedState needingZ).workspace.tree = shelvedTree needingZ := rfl
  obtain ⟨⟨events, hhistory⟩, hall⟩ := libraries_first hsuits hstart rfl
  obtain ⟨hlog, hrecorded, -⟩ := hall events _ hhistory
  refine ⟨hsuits, rfl, hcalls, events, hhistory, ?_, (hrecorded "libz.so").1 (by rw [Recorded]; decide +kernel)⟩
  rw [hcalls] at hlog
  simpa [shelvedState, ImporterState.ofWorkspace] using hlog.symm

/-- A shared binary that declares the empty name, and nothing else. -/
def needingNameless : ByteArray := needingZ.set! 112 0

/-- **The empty name is never asked for**, though a library declares it: the copy of `libz.so` declares it and is loaded
without it, and `libz.so` cannot be reached from it. -/
theorem nameless_not_first :
    (∀ q ∈ [LoadRequest.binary shelvedUnit],
      q.Suits (shelved needingNameless) (shelf needingNameless) (·.tree = shelvedTree needingNameless)) ∧
      (shelvedState needingNameless).record = [] ∧
      ∃ events, (shelved needingNameless).History (shelvedState needingNameless) [.binary shelvedUnit] events
          ((shelved needingNameless).afterLoads (shelvedState needingNameless) [.binary shelvedUnit]) ∧
        ∃ later a earlier, libraries events = later ++ a :: earlier ∧ (shelf needingNameless).Declares a.name "" ∧
          "" ∉ earlier.map Attempt.name ∧
          ¬ Relation.ReflTransGen (shelf needingNameless).Declares "" a.name := by
  have hsuits : ∀ q ∈ [LoadRequest.binary shelvedUnit],
      q.Suits (shelved needingNameless) (shelf needingNameless) (·.tree = shelvedTree needingNameless) := by
    intro q hq
    cases List.mem_singleton.1 hq
    exact shelved_suits (by decide +kernel) (by decide +kernel) (by decide +kernel) (by decide +kernel)
  obtain ⟨events, hhistory⟩ :=
    exists_history (shelved needingNameless) (shelvedState needingNameless) [.binary shelvedUnit]
  obtain ⟨hlog, -⟩ := hhistory.inOrder hsuits rfl rfl
  -- The library is on record and its empty name is not, so no attempt was made on that.
  have hz : Recorded ((shelved needingNameless).afterLoads (shelvedState needingNameless)
      [.binary shelvedUnit]).toLoaderState "libz.so" := by
    rw [Recorded]
    decide +kernel
  have hnone : ¬ Recorded ((shelved needingNameless).afterLoads (shelvedState needingNameless)
      [.binary shelvedUnit]).toLoaderState "" := by
    rw [Recorded]
    decide +kernel
  obtain ⟨a, ha, hname⟩ := List.mem_map.1 ((hlog.recorded _).1 hz)
  obtain ⟨later, earlier, hsplit⟩ := List.append_of_mem ha
  refine ⟨hsuits, rfl, events, hhistory, later, a, earlier, hsplit, ?_, fun hmem => hnone ((hlog.recorded _).2 ?_), ?_⟩
  · rw [hname]
    exact ⟨"/x/lib/libz.so", [""], rfl, by decide +kernel, by simp⟩
  · rw [hsplit, List.map_append, List.map_cons]
    exact List.mem_append_right _ (List.mem_cons_of_mem _ hmem)
  · rw [hname]
    intro hreach
    rcases Relation.ReflTransGen.cases_head hreach with heq | ⟨d, ⟨path, -, hfound, -⟩, -⟩
    · exact absurd heq (by decide)
    · simp [shelf] at hfound

end Importer

end LayeredBundles
