import LayeredBundles.Proofs.Operations

/-! # What loading does to the record and the log

Libraries are loaded depth first, over a graph that is only seen while it is walked and that may hold circles. The
rules of such a walk are given here without any bound on its depth, and a walk with the bound in use follows them.

* **`Loader.Loads`** — the rules;
* **`Loader.loads_forM`** — a walk whose bound is greater than the number of bundled names without an outcome is one by
  the rules: it ends by itself, not at its bound;
* **`Loader.finishes_loadNeeds`** — so does every request to load what a file needs;
* **`Loader.Extends`** — what a walk adds: one attempt for each new name, one call of the host for each attempt;
* **`Loader.NeedsRequest.attempts_once`** — every name is attempted at most once, and its outcome is final. -/

namespace LayeredBundles

/-- The call that asks for a library whose bundled copy is given, or for that of the system. -/
def HostCall.ofFound (name : String) : Option String → HostCall
  | some copy => .path copy
  | none => .library name

/-- What becomes of a library by a verdict on its bundled copy, or on that of the system. -/
def LoadStatus.ofVerdict (found : Option String) : Except String Unit → LoadStatus
  | .ok () => match found with
    | some path => .bundled path
    | none => .system
  | .error reason => .failed reason

/-- A verdict leaves no library pending. -/
theorem LoadStatus.ofVerdict_ne_pending (found : Option String) (v : Except String Unit) :
    LoadStatus.ofVerdict found v ≠ .pending := by
  rcases v with reason | ⟨⟨⟩⟩
  · exact LoadStatus.noConfusion
  · cases found <;> exact LoadStatus.noConfusion

namespace Loader

variable {host : Host} {locator : Locator} {name : String} {names : List String} {s s' : LoaderState}

/-! ## (1) The rules -/

/-- Whether a library has an outcome, or is being loaded. -/
def Recorded (s : LoaderState) (name : String) : Prop := Table.contains s.record name = true

/-- What a library's bundled copy needs, as far as that can be told. -/
def declared : Option String → Loading (List String)
  | some path => do
    match ← outcomeOf (Elf.neededOf path) with
    | .ok needs => return needs
    | .error _ => return []
  | none => return []

/-- The state in which a library is being loaded. -/
def marked (name : String) (s : LoaderState) : LoaderState :=
  { s with record := Table.insert name .pending s.record }

/-- The state after the host was asked for a library. -/
def concluded (host : Host) (name : String) (found : Option String) (s : LoaderState) : LoaderState :=
  { s with
    calls := .ofFound name found :: s.calls
    record := Table.insert name (.ofVerdict found (host s.calls (.ofFound name found))) s.record }

/-- `Loads host locator names s s'`: loading these libraries in turn leads from `s` to `s'`. -/
inductive Loads (host : Host) (locator : Locator) : List String → LoaderState → LoaderState → Prop where
  /-- There is nothing to load. -/
  | done (s : LoaderState) : Loads host locator [] s s
  /-- What is recorded is passed over. -/
  | known {name : String} {rest : List String} {s s' : LoaderState} (hname : Recorded s name)
      (hrest : Loads host locator rest s s') : Loads host locator (name :: rest) s s'
  /-- Any other library is marked and located, what it needs is loaded, and the host is asked. -/
  | fresh {name : String} {rest needs : List String} {found : Option String} {s s₁ s₂ s₃ s' : LoaderState}
      (hname : ¬ Recorded s name) (hfound : (locate locator name).run (marked name s) = (found, s₁))
      (hneeds : (declared found).run s₁ = (needs, s₂)) (hloads : Loads host locator needs s₂ s₃)
      (hrest : Loads host locator rest (concluded host name found s₃) s') : Loads host locator (name :: rest) s s'

/-- The rules leave no choice. -/
theorem Loads.unique {s₁ s₂ : LoaderState} (h₁ : Loads host locator names s s₁) (h₂ : Loads host locator names s s₂) :
    s₁ = s₂ := by
  induction h₁ generalizing s₂ with
  | done s =>
    cases h₂
    rfl
  | known hname _ ih =>
    cases h₂ with
    | known _ hrest => exact ih hrest
    | fresh hfresh => exact absurd hname hfresh
  | fresh hname hfound hneeds _ _ ihneeds ihrest =>
    cases h₂ with
    | known hknown => exact absurd hknown hname
    | fresh _ hfound' hneeds' hloads' hrest' =>
      cases hfound.symm.trans hfound'
      cases hneeds.symm.trans hneeds'
      cases ihneeds hloads'
      exact ihrest hrest'

/-! ## (2) Single steps -/

/-- Work on the workspace leaves the record and the calls alone. -/
theorem outcomeOf_run {ε α : Type} (a : Work ε α) (s : LoaderState) :
    (outcomeOf a).run s = ((a.outcome s.workspace).1, { s with workspace := (a.outcome s.workspace).2 }) := rfl

/-- To see what a file needs changes nothing. -/
theorem outcomeOf_neededOf_run (path : String) (s : LoaderState) :
    (outcomeOf (Elf.neededOf path)).run s = (((Elf.neededOf path).outcome s.workspace).1, s) := by
  have hsame : ((Elf.neededOf path).outcome s.workspace).2 = s.workspace :=
    preserves_neededOf (I := (· = s.workspace)) path s.workspace rfl
  rw [outcomeOf_run, hsame]

/-- What a copy needs depends on the workspace alone. -/
theorem declared_run (found : Option String) (s : LoaderState) :
    (declared found).run s
      = ((found.bind fun path => ((Elf.neededOf path).outcome s.workspace).1.toOption).getD [], s) := by
  cases found with
  | none => rfl
  | some path =>
    rw [declared, StateT.run_bind, outcomeOf_neededOf_run]
    rw [Option.bind_some]
    cases ((Elf.neededOf path).outcome s.workspace).1 <;> rfl

/-- A library that cannot be bundled is not looked for. -/
theorem locate_run_of_notMem (h : name ∉ locator.names) (s : LoaderState) :
    (locate locator name).run s = (none, s) := by
  rw [locate, if_neg h]
  rfl

/-- A listed name is looked for by the locator, and a failure counts as no copy. -/
theorem locate_run_of_mem (h : name ∈ locator.names) (s : LoaderState) :
    (locate locator name).run s = (((locator.locate name).outcome s.workspace).1.toOption.join,
      { s with workspace := ((locator.locate name).outcome s.workspace).2 }) := by
  rw [locate, if_pos h, StateT.run_bind, outcomeOf_run]
  rcases ((locator.locate name).outcome s.workspace).1 with e | found
  · rfl
  · cases found <;> rfl

/-- Locating changes the workspace at most. -/
theorem exists_locate_run (locator : Locator) (name : String) (s : LoaderState) :
    ∃ found w, (locate locator name).run s = (found, { s with workspace := w }) := by
  by_cases h : name ∈ locator.names
  · exact ⟨_, _, locate_run_of_mem h s⟩
  · exact ⟨_, _, locate_run_of_notMem h s⟩

/-- The host is asked, and its verdict recorded. -/
theorem verdict_note_run (host : Host) (name : String) (found : Option String) (s : LoaderState) :
    (do note name (← verdict host (.ofFound name found) (.ofVerdict found (.ok ()))) : Loading Unit).run s
      = ((), concluded host name found s) := by
  have hask : (ask host (.ofFound name found)).run s
      = (host s.calls (.ofFound name found), { s with calls := .ofFound name found :: s.calls }) := rfl
  rw [StateT.run_bind, verdict, StateT.run_bind, hask, concluded]
  rcases host s.calls (.ofFound name found) with reason | ⟨⟨⟩⟩ <;> rfl

/-- Libraries are loaded one after the other. -/
theorem forM_cons_run (f : String → Loading Unit) (name : String) (rest : List String) (s : LoaderState) :
    ((name :: rest).forM f).run s = (rest.forM f).run ((f name).run s).2 := rfl

/-- A library on record is not loaded again. -/
theorem loadOnce_succ_run_of_recorded (depth : Nat) (h : Recorded s name) :
    (loadOnce host locator (depth + 1) name).run s = ((), s) := by
  have hname : Table.contains s.record name = true := h
  rw [loadOnce, StateT.run_bind]
  change (if Table.contains s.record name = true then _ else _ : Loading Unit).run s = _
  rw [if_pos hname]
  rfl

/-- One library that is not recorded: it is marked and located, what it needs is loaded, and the host is asked. -/
theorem loadOnce_succ_run (depth : Nat) (h : ¬ Recorded s name) {found : Option String} {needs : List String}
    {s₁ s₂ : LoaderState} (hfound : (locate locator name).run (marked name s) = (found, s₁))
    (hneeds : (declared found).run s₁ = (needs, s₂)) :
    (loadOnce host locator (depth + 1) name).run s
      = ((), concluded host name found ((needs.forM (loadOnce host locator depth)).run s₂).2) := by
  have hname : ¬ Table.contains s.record name = true := h
  -- Step by step through the program, which runs on the state that is named each time.
  rw [loadOnce, StateT.run_bind]
  change (if Table.contains s.record name = true then _ else _ : Loading Unit).run s = _
  rw [if_neg hname, StateT.run_bind]
  change StateT.run _ (marked name s) = _
  rw [StateT.run_bind, hfound]
  cases found with
  | none =>
    cases hneeds
    exact verdict_note_run host name none s₁
  | some path =>
    have hsame := declared_run (some path) s₁
    rw [hneeds, Option.bind_some] at hsame
    change StateT.run _ s₁ = _
    rw [StateT.run_bind, outcomeOf_neededOf_run]
    rcases hfile : ((Elf.neededOf path).outcome s₁.workspace).1 with e | needed
    · rw [hfile] at hsame
      cases hsame
      exact verdict_note_run host name (some path) s₁
    · rw [hfile] at hsame
      cases hsame
      change StateT.run _ s₁ = _
      rw [StateT.run_bind]
      exact verdict_note_run host name (some path) _

/-! ## (3) A walk ends by itself -/

/-- On record is what was on it, and what was put there. -/
theorem recorded_of_insert {status : LoadStatus} (h : s'.record = Table.insert name status s.record)
    {n : String} : Recorded s' n ↔ n = name ∨ Recorded s n := by
  simp only [Recorded, h, Table.contains, Table.find?_insert]
  split <;> simp [*]

/-- Marking a library puts it on record. -/
theorem recorded_marked {n : String} : Recorded (marked name s) n ↔ n = name ∨ Recorded s n := recorded_of_insert rfl

/-- So does concluding it. -/
theorem recorded_concluded {n : String} {found : Option String} :
    Recorded (concluded host name found s) n ↔ n = name ∨ Recorded s n := recorded_of_insert rfl

/-- What is recorded stays recorded. -/
theorem Loads.recorded (h : Loads host locator names s s') {n : String} (hn : Recorded s n) : Recorded s' n := by
  induction h with
  | done s => exact hn
  | known _ _ ih => exact ih hn
  | @fresh name rest needs found s s₁ s₂ s₃ s' _ hfound hneeds _ _ ihneeds ihrest =>
    have hs₂ : Recorded s₂ n := by
      obtain ⟨found, w, hrun⟩ := exists_locate_run locator name (marked name s)
      cases hfound.symm.trans hrun
      cases hneeds.symm.trans (declared_run _ _)
      exact recorded_marked.2 (.inr hn)
    exact ihrest (recorded_concluded.2 (.inr (ihneeds hs₂)))

/-- The names that may be found and are not recorded. -/
def unrecorded (locator : Locator) (s : LoaderState) : List String :=
  locator.names.filter fun n => !Table.contains s.record n

/-- Left to load are the listed names that are not on record. -/
theorem mem_unrecorded {n : String} : n ∈ unrecorded locator s ↔ n ∈ locator.names ∧ ¬ Recorded s n := by
  simp [unrecorded, Recorded]

/-- The more is on record, the less is left to load. -/
theorem unrecorded_sublist (h : ∀ n, Recorded s n → Recorded s' n) :
    List.Sublist (unrecorded locator s') (unrecorded locator s) := by
  refine List.monotone_filter_right locator.names fun n hn => ?_
  have hn' : ¬ Recorded s' n := by simpa [Recorded] using hn
  have hn'' : ¬ Recorded s n := fun hs => hn' (h n hs)
  simpa [Recorded] using hn''

/-- To mark a name that may be found leaves fewer of them. -/
theorem unrecorded_marked_length_lt (hmem : name ∈ locator.names) (hname : ¬ Recorded s name) :
    (unrecorded locator (marked name s)).length < (unrecorded locator s).length := by
  have hsub : List.Sublist (unrecorded locator (marked name s)) (unrecorded locator s) :=
    unrecorded_sublist fun n hn => recorded_marked.2 (.inr hn)
  refine lt_of_le_of_ne hsub.length_le fun hlength => ?_
  have hmarked : name ∈ unrecorded locator (marked name s) :=
    hsub.eq_of_length hlength ▸ mem_unrecorded.2 ⟨hmem, hname⟩
  exact (mem_unrecorded.1 hmarked).2 (recorded_marked.2 (.inl rfl))

/-- **A walk ends by itself** when its bound is greater than the number of names that may be found and are not
recorded. -/
theorem loads_forM {depth : Nat} (h : (unrecorded locator s).length < depth) (names : List String) :
    Loads host locator names s ((names.forM (loadOnce host locator depth)).run s).2 := by
  -- By induction on the bound, and for each bound on the names that are left: only what a copy needs lowers it.
  induction depth generalizing names s with
  | zero => exact absurd h (Nat.not_lt_zero _)
  | succ depth ih =>
    induction names generalizing s with
    | nil => exact .done s
    | cons name rest ihrest =>
      rw [forM_cons_run]
      by_cases hname : Recorded s name
      · rw [loadOnce_succ_run_of_recorded depth hname]
        exact .known hname (ihrest h)
      · obtain ⟨found, w, hfound⟩ := exists_locate_run locator name (marked name s)
        generalize hs₁ : ({ marked name s with workspace := w } : LoaderState) = s₁ at hfound
        have hneeds := declared_run found s₁
        generalize hneeded : (found.bind fun path => ((Elf.neededOf path).outcome s₁.workspace).1.toOption).getD []
          = needs at hneeds
        rw [loadOnce_succ_run depth hname hfound hneeds]
        have hrecorded : ∀ n, Recorded s n → Recorded s₁ n := fun n hn => hs₁ ▸ recorded_marked.2 (.inr hn)
        have hloads : Loads host locator needs s₁ ((needs.forM (loadOnce host locator depth)).run s₁).2 := by
          by_cases hmem : name ∈ locator.names
          · -- One name fewer is left, and the bound is smaller by one.
            have hlt := unrecorded_marked_length_lt hmem hname
            have hsame : unrecorded locator s₁ = unrecorded locator (marked name s) := hs₁ ▸ rfl
            exact ih (by rw [hsame]; omega) needs
          · -- Nothing is found, so nothing is needed.
            cases hfound.symm.trans (locate_run_of_notMem hmem _)
            cases hneeded
            exact .done _
        refine .fresh hname hfound hneeds hloads (ihrest ?_)
        refine lt_of_le_of_lt (unrecorded_sublist fun n hn => ?_).length_le h
        exact recorded_concluded.2 (.inr (hloads.recorded (hrecorded n hn)))

/-- The bound in use is great enough. -/
theorem loads_depth (names : List String) :
    Loads host locator names s ((names.forM (loadOnce host locator (depth locator))).run s).2 :=
  loads_forM (Nat.lt_succ_of_le (List.length_filter_le _ _)) names

/-- `Finishes host locator path s out`: by the rules, the request to load all that a file needs ends so. -/
inductive Finishes (host : Host) (locator : Locator) (path : String) (s : LoaderState) :
    Except NeedsFailure Unit × LoaderState → Prop where
  /-- The file cannot be read or understood: nothing is done. -/
  | failed {e : NeedsFailure} (hfile : ((Elf.neededOf path).outcome s.workspace).1 = .error e) :
      Finishes host locator path s (.error e, s)
  /-- What the file needs is loaded. -/
  | loaded {names : List String} {s' : LoaderState} (hfile : ((Elf.neededOf path).outcome s.workspace).1 = .ok names)
      (hloads : Loads host locator names s s') : Finishes host locator path s (.ok (), s')

/-- **Every request ends by itself.** -/
theorem finishes_loadNeeds (host : Host) (locator : Locator) (path : String) (s : LoaderState) :
    Finishes host locator path s ((loadNeeds host locator path).outcome s) := by
  rw [loadNeeds, Fallible.outcome_ofOutcome, outcomeOf_neededOf_run]
  rcases hfile : ((Elf.neededOf path).outcome s.workspace).1 with e | names
  · exact .failed hfile
  · exact .loaded hfile (loads_depth names)

/-- A request ends as the reading of its file ends, whatever becomes of libraries. -/
theorem Finishes.fst_eq {path : String} {out : Except NeedsFailure Unit × LoaderState}
    (h : Finishes host locator path s out) :
    out.1 = ((Elf.neededOf path).outcome s.workspace).1.map fun _ => () := by
  cases h with
  | failed hfile => rw [hfile]; rfl
  | loaded hfile _ => rw [hfile]; rfl

/-- A request that fails leaves the state as it is. -/
theorem Finishes.snd_eq_of_error {path : String} {out : Except NeedsFailure Unit × LoaderState}
    (h : Finishes host locator path s out) {e : NeedsFailure} (he : out.1 = .error e) : out.2 = s := by
  cases h with
  | failed => rfl
  | loaded => cases he

/-! ## (4) What a walk adds -/

/-- An **attempt** to load a library. -/
structure Attempt where
  /-- The name of the library. -/
  name : String
  /-- Its bundled copy, if one was found. -/
  found : Option String

/-- The call that an attempt is. -/
def Attempt.call (a : Attempt) : HostCall := .ofFound a.name a.found

/-- `Extends host locator added s s'`: these attempts, the last one first, and nothing else, make `s'` of `s`. -/
structure Extends (host : Host) (locator : Locator) (added : List Attempt) (s s' : LoaderState) : Prop where
  /-- No name is attempted twice. -/
  nodup : (added.map Attempt.name).Nodup
  /-- No name is attempted that is recorded. -/
  unrecorded : ∀ a ∈ added, ¬ Recorded s a.name
  /-- Recorded is what was, and what was attempted. -/
  recorded : ∀ n, Recorded s' n ↔ Recorded s n ∨ n ∈ added.map Attempt.name
  /-- What was recorded keeps its outcome. -/
  kept : ∀ n, Recorded s n → Table.find? s'.record n = Table.find? s.record n
  /-- The host was asked once for each attempt, and for nothing else. -/
  calls : s'.calls = added.map Attempt.call ++ s.calls
  /-- An attempt has the outcome of the host's verdict on its call, given all calls before it. -/
  outcome : ∀ later a earlier, added = later ++ a :: earlier → Table.find? s'.record a.name
    = some (.ofVerdict a.found (host (earlier.map Attempt.call ++ s.calls) a.call))
  /-- The copy is one that the locator found. -/
  found : ∀ a ∈ added, ∃ t : LoaderState, ((locate locator a.name).run t).1 = a.found

/-- Nothing is added where nothing is done. -/
theorem Extends.refl (s : LoaderState) : Extends host locator [] s s where
  nodup := List.nodup_nil
  unrecorded := by simp
  recorded := by simp
  kept _ _ := rfl
  calls := rfl
  outcome later a earlier h := by simp at h
  found := by simp

/-- One walk after another. -/
theorem Extends.trans {s₁ s₂ : LoaderState} {first second : List Attempt} (h₁ : Extends host locator first s s₁)
    (h₂ : Extends host locator second s₁ s₂) : Extends host locator (second ++ first) s s₂ where
  nodup := by
    rw [List.map_append, List.nodup_append]
    refine ⟨h₂.nodup, h₁.nodup, fun n hn n' hn' heq => ?_⟩
    subst heq
    obtain ⟨a, ha, rfl⟩ := List.mem_map.1 hn
    exact h₂.unrecorded a ha ((h₁.recorded _).2 (.inr hn'))
  unrecorded a ha hrecorded := by
    rcases List.mem_append.1 ha with ha | ha
    · exact h₂.unrecorded a ha ((h₁.recorded _).2 (.inl hrecorded))
    · exact h₁.unrecorded a ha hrecorded
  recorded n := by
    rw [h₂.recorded, h₁.recorded, List.map_append, List.mem_append, or_assoc, or_comm (a := n ∈ second.map _)]
  kept n hn := (h₂.kept n ((h₁.recorded n).2 (.inl hn))).trans (h₁.kept n hn)
  calls := by rw [h₂.calls, h₁.calls, List.map_append, List.append_assoc]
  outcome later a earlier h := by
    -- An attempt belongs to the first walk or to the second one.
    have hsplit : (∃ between, first = between ++ a :: earlier) ∨
        ∃ between, second = later ++ a :: between ∧ earlier = between ++ first := by
      rcases List.append_eq_append_iff.1 h with ⟨between, -, hfirst⟩ | ⟨between, hsecond, hearlier⟩
      · exact .inl ⟨between, hfirst⟩
      · rcases List.cons_eq_append_iff.1 hearlier with ⟨-, hfirst⟩ | ⟨between, rfl, hearlier⟩
        · exact .inl ⟨[], hfirst⟩
        · exact .inr ⟨between, hsecond, (List.cons.inj hearlier).2⟩
    rcases hsplit with ⟨between, hfirst⟩ | ⟨between, hsecond, rfl⟩
    · have hname : a.name ∈ first.map Attempt.name := List.mem_map_of_mem (hfirst ▸ by simp)
      rw [h₂.kept _ ((h₁.recorded _).2 (.inr hname)), h₁.outcome between a earlier hfirst]
    · rw [h₂.outcome later a between hsecond, h₁.calls, List.map_append, List.append_assoc]
  found a ha := (List.mem_append.1 ha).elim (h₂.found a) (h₁.found a)

/-- A library is attempted after what it needs: it is marked before that, so it is not attempted on the way. -/
theorem Extends.enclose {s₂ s₃ : LoaderState} {added : List Attempt} {found : Option String} (hname : ¬ Recorded s name)
    (hrecord : s₂.record = Table.insert name .pending s.record) (hcalls : s₂.calls = s.calls)
    (hfound : ∃ t : LoaderState, ((locate locator name).run t).1 = found) (h : Extends host locator added s₂ s₃) :
    Extends host locator (⟨name, found⟩ :: added) s (concluded host name found s₃) := by
  have hmarked : ∀ n, Recorded s₂ n ↔ n = name ∨ Recorded s n := fun n => recorded_of_insert hrecord
  have hother : ∀ n, n ≠ name →
      Table.find? (concluded host name found s₃).record n = Table.find? s₃.record n := fun n hn =>
    Table.find?_insert_of_ne hn _ _
  -- The name is recorded all the way, so no attempt on the way is at it.
  have hne : ∀ a ∈ added, a.name ≠ name := fun a ha heq => h.unrecorded a ha ((hmarked _).2 (.inl heq))
  refine
    { nodup := ?_, unrecorded := ?_, recorded := fun n => ?_, kept := fun n hn => ?_, calls := ?_,
      outcome := fun later a earlier hadded => ?_, found := ?_ }
  · refine List.nodup_cons.2 ⟨fun hmem => ?_, h.nodup⟩
    obtain ⟨a, ha, heq⟩ := List.mem_map.1 hmem
    exact hne a ha heq
  · rintro a ha hrecorded
    rcases List.mem_cons.1 ha with rfl | ha
    · exact hname hrecorded
    · exact h.unrecorded a ha ((hmarked _).2 (.inr hrecorded))
  · rw [recorded_concluded, h.recorded, hmarked, List.map_cons, List.mem_cons]
    tauto
  · have hn' : n ≠ name := fun heq => hname (heq ▸ hn)
    rw [hother n hn', h.kept n ((hmarked n).2 (.inr hn)), hrecord, Table.find?_insert_of_ne hn']
  · rw [List.map_cons, List.cons_append, ← hcalls, ← h.calls]
    rfl
  · cases later with
    | nil =>
      cases hadded
      rw [← hcalls, ← h.calls]
      exact Table.find?_insert_self _ _ _
    | cons b later =>
      obtain ⟨-, hadded⟩ := List.cons.inj hadded
      rw [hother _ (hne a (hadded ▸ by simp)), h.outcome later a earlier hadded, hcalls]
  · rintro a ha
    rcases List.mem_cons.1 ha with rfl | ha
    · exact hfound
    · exact h.found a ha

/-- **A walk attempts each new name once**, and calls the host once for each. -/
theorem Loads.exists_extends (h : Loads host locator names s s') : ∃ added, Extends host locator added s s' := by
  induction h with
  | done s => exact ⟨[], .refl s⟩
  | known _ _ ih => exact ih
  | @fresh name rest needs found s s₁ s₂ s₃ s' hname hfound hneeds _ _ ihneeds ihrest =>
    obtain ⟨below, hbelow⟩ := ihneeds
    obtain ⟨after, hafter⟩ := ihrest
    obtain ⟨found', w, hrun⟩ := exists_locate_run locator name (marked name s)
    cases hfound.symm.trans hrun
    cases hneeds.symm.trans (declared_run _ _)
    have henclosed : Extends host locator (⟨name, found⟩ :: below) s (concluded host name found s₃) :=
      Extends.enclose hname (by rfl) (by rfl) ⟨marked name s, by rw [hfound]⟩ hbelow
    exact ⟨_, henclosed.trans hafter⟩

/-- A request adds attempts as well. -/
theorem Finishes.exists_extends {path : String} {out : Except NeedsFailure Unit × LoaderState}
    (h : Finishes host locator path s out) : ∃ added, Extends host locator added s out.2 := by
  cases h with
  | failed => exact ⟨[], .refl s⟩
  | loaded _ hloads => exact hloads.exists_extends

/-! ## (5) Many loaders with one record -/

/-- The request to load all that a file needs, by a loader of its own: it shares nothing with others but the record. -/
structure NeedsRequest where
  /-- Who loads. -/
  host : Host
  /-- Where bundled copies are found. -/
  locator : Locator
  /-- The file. -/
  path : String
  /-- The workspace at that time. -/
  workspace : Workspace
  /-- What the host was asked for before. -/
  calls : List HostCall

namespace NeedsRequest

/-- The state in which a request starts. -/
def start (q : NeedsRequest) (record : LoadTable) : LoaderState := ⟨q.workspace, record, q.calls⟩

/-- How a request ends, and the state it leaves. -/
def run (q : NeedsRequest) (record : LoadTable) : Except NeedsFailure Unit × LoaderState :=
  (loadNeeds q.host q.locator q.path).outcome (q.start record)

/-- The record after a sequence of requests. -/
def recordAfter (record : LoadTable) (qs : List NeedsRequest) : LoadTable :=
  qs.foldl (fun record q => (q.run record).2.record) record

variable {record : LoadTable}

/-- A request runs as the rules say. -/
theorem run_finishes (q : NeedsRequest) (record : LoadTable) :
    Finishes q.host q.locator q.path (q.start record) (q.run record) :=
  finishes_loadNeeds q.host q.locator q.path (q.start record)

/-- Requests after others go on with the record that those have left. -/
theorem recordAfter_append (record : LoadTable) (before after : List NeedsRequest) :
    recordAfter record (before ++ after) = recordAfter (recordAfter record before) after := List.foldl_append

/-- An outcome is final: no request after it changes it. -/
theorem find?_recordAfter {n : String} (hn : Table.contains record n = true) (qs : List NeedsRequest) :
    Table.find? (recordAfter record qs) n = Table.find? record n := by
  induction qs generalizing record with
  | nil => rfl
  | cons q qs ih =>
    obtain ⟨added, hadded⟩ := (q.run_finishes record).exists_extends
    exact (ih ((hadded.recorded n).2 (.inl hn))).trans (hadded.kept n hn)

/-- **Every library is attempted at most once, and its outcome is final.** Of any sequence of requests by loaders
that share a record, one request `q` makes a list of attempts at names that were not recorded, each name once; these
names, and no others, are then recorded besides those that were, none of them as being loaded; and the host was asked
once for each of them and for nothing else. What is recorded then stays so through the requests that follow. The
request fails exactly when its own file cannot be understood, and changes neither record nor log then. -/
theorem attempts_once (record : LoadTable) (before after : List NeedsRequest) (q : NeedsRequest) :
    ∃ added,
      Extends q.host q.locator added (q.start (recordAfter record before)) (q.run (recordAfter record before)).2 ∧
      (∀ a ∈ added, Table.find? (recordAfter record (before ++ [q])) a.name ≠ some .pending) ∧
      (∀ n, Table.contains (recordAfter record (before ++ [q])) n = true →
        Table.find? (recordAfter record (before ++ q :: after)) n
          = Table.find? (recordAfter record (before ++ [q])) n) ∧
      (q.run (recordAfter record before)).1 = ((Elf.neededOf q.path).outcome q.workspace).1.map (fun _ => ()) ∧
      ∀ e, (q.run (recordAfter record before)).1 = .error e →
        recordAfter record (before ++ [q]) = recordAfter record before ∧
          (q.run (recordAfter record before)).2.calls = q.calls := by
  have hfinishes := q.run_finishes (recordAfter record before)
  obtain ⟨added, hadded⟩ := hfinishes.exists_extends
  have hlast : recordAfter record (before ++ [q]) = (q.run (recordAfter record before)).2.record := by
    rw [recordAfter_append]
    rfl
  refine ⟨added, hadded, fun a ha => ?_, fun n hn => ?_, hfinishes.fst_eq, fun e he => ?_⟩
  · obtain ⟨later, earlier, hsplit⟩ := List.append_of_mem ha
    rw [hlast, hadded.outcome later a earlier hsplit]
    exact fun heq => LoadStatus.ofVerdict_ne_pending _ _ (Option.some.inj heq)
  · have hsplit : before ++ q :: after = before ++ [q] ++ after := by simp
    rw [hsplit, recordAfter_append _ (before ++ [q])]
    exact find?_recordAfter hn after
  · rw [hlast, hfinishes.snd_eq_of_error he]
    exact ⟨rfl, rfl⟩

end NeedsRequest

end Loader

end LayeredBundles
