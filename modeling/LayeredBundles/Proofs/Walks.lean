import LayeredBundles.Proofs.Dependencies

/-! # The order of a walk

A walk is depth first: a library is asked for when all that it needs was walked through. It is asked for before one of
these only if that one is being loaded at the time, and what is being loaded waits for the library in turn. So the only
order that is ever reversed is that on a circle.

* **`Elf.declares`** — the names that a file declares, before empty ones and repetitions are left out;
* **`Loader.Traces`** — the rules of a walk, with the list of its attempts;
* **`Setting.Orderly`** — a list of attempts in which what is needed comes first, but for circles;
* **`Traces.orderly`** — every walk is orderly;
* **`Loader.Shelf`** — what files hold and where copies are found, as long as both stay as they are. -/

namespace LayeredBundles

open Fallible

/-! ## (1) The names a file declares -/

namespace Elf

/-- The names in the rows of needed libraries, as they stand there: in order, with empty ones and repetitions. -/
def declares (d : ByteArray) : Read (List String) := do
  let v ← viewOf d
  let h ← header v
  match ← findTable v h with
  | none => return []
  | some (entries, strings) => names v strings entries

/-- What a file needs is what it declares, without empty names and repetitions. -/
theorem needed_eq (d : ByteArray) : needed d = (declares d).map distinct := by
  unfold needed declares
  simp only [Bind.bind, Except.bind, Pure.pure, Except.pure]
  rcases viewOf d with e | v
  · rfl
  dsimp only
  rcases header v with e | h
  · rfl
  dsimp only
  rcases findTable v h with e | none | ⟨entries, strings⟩
  · rfl
  · rfl
  dsimp only
  rcases names v strings entries with e | ns <;> rfl

/-- What is left of a list of names is all of it but the empty name. -/
theorem mem_distinct {n : String} {ns : List String} : n ∈ distinct ns ↔ n ∈ ns ∧ n ≠ "" := by
  have hfound : ∀ found : List String,
      n ∈ ns.foldl (fun found n => if n = "" || found.contains n then found else found ++ [n]) found
        ↔ n ∈ found ∨ n ∈ ns ∧ n ≠ "" := by
    induction ns with
    | nil => simp
    | cons m ns ih =>
      intro found
      rw [List.foldl_cons, ih, List.mem_cons]
      -- A name that is left out is empty, or was found already.
      split
      · next hout =>
        rw [Bool.or_eq_true, decide_eq_true_eq, List.contains_iff_mem] at hout
        grind
      · next hin =>
        rw [Bool.or_eq_true, decide_eq_true_eq, List.contains_iff_mem] at hin
        grind
  rw [distinct, hfound]
  simp

end Elf

namespace Loader

variable {host : Host} {locator : Locator} {I : Workspace → Prop} {names : List String} {log : List Attempt}
  {s s' : LoaderState}

/-! ## (2) The attempts of a walk, in order -/

/-- `Traces host locator names s log s'`: loading these libraries in turn leads from `s` to `s'`, and the attempts on
the way are those of the log, the last one first. -/
inductive Traces (host : Host) (locator : Locator) : List String → LoaderState → List Attempt → LoaderState → Prop where
  /-- There is nothing to load. -/
  | done (s : LoaderState) : Traces host locator [] s [] s
  /-- What is recorded is passed over. -/
  | known {name : String} {rest : List String} {log : List Attempt} {s s' : LoaderState} (hname : Recorded s name)
      (hrest : Traces host locator rest s log s') : Traces host locator (name :: rest) s log s'
  /-- Any other library is marked and located, what it needs is loaded, and the host is asked. -/
  | fresh {name : String} {rest needs : List String} {found : Option String} {below after : List Attempt}
      {s s₁ s₂ s₃ s' : LoaderState} (hname : ¬ Recorded s name)
      (hfound : (locate locator name).run (marked name s) = (found, s₁))
      (hneeds : (declared found).run s₁ = (needs, s₂)) (hloads : Traces host locator needs s₂ below s₃)
      (hrest : Traces host locator rest (concluded host name found s₃) after s') :
      Traces host locator (name :: rest) s (after ++ ⟨name, found⟩ :: below) s'

/-- Every walk has its list of attempts. -/
theorem Loads.exists_traces (h : Loads host locator names s s') : ∃ log, Traces host locator names s log s' := by
  induction h with
  | done s => exact ⟨[], .done s⟩
  | known hname _ ih =>
    obtain ⟨log, hlog⟩ := ih
    exact ⟨log, .known hname hlog⟩
  | fresh hname hfound hneeds _ _ ihneeds ihrest =>
    obtain ⟨below, hbelow⟩ := ihneeds
    obtain ⟨after, hafter⟩ := ihrest
    exact ⟨_, .fresh hname hfound hneeds hbelow hafter⟩

/-- What is traced follows the rules of loading. -/
theorem Traces.loads (h : Traces host locator names s log s') : Loads host locator names s s' := by
  induction h with
  | done s => exact .done s
  | known hname _ ih => exact .known hname ih
  | fresh hname hfound hneeds _ _ ihneeds ihrest => exact .fresh hname hfound hneeds ihneeds ihrest

/-- All the libraries a walk began with are on record. -/
theorem Loads.all (h : Loads host locator names s s') : ∀ n ∈ names, Recorded s' n := by
  induction h with
  | done s => simp
  | known hname hrest ih =>
    rintro n hn
    rcases List.mem_cons.1 hn with rfl | hn
    · exact hrest.recorded hname
    · exact ih n hn
  | fresh _ _ _ _ hrest _ ihrest =>
    rintro n hn
    rcases List.mem_cons.1 hn with rfl | hn
    · exact hrest.recorded (recorded_concluded.2 (.inl rfl))
    · exact ihrest n hn

/-- These attempts are all that a walk adds. -/
theorem Traces.extends (h : Traces host locator names s log s') : Extends host locator log s s' := by
  induction h with
  | done s => exact .refl s
  | known _ _ ih => exact ih
  | @fresh name rest needs found below after s s₁ s₂ s₃ s' hname hfound hneeds _ _ ihneeds ihrest =>
    obtain ⟨found', w, hrun⟩ := exists_locate_run locator name (marked name s)
    cases hfound.symm.trans hrun
    cases hneeds.symm.trans (declared_run _ _)
    exact (Extends.enclose hname (by rfl) (by rfl) ⟨marked name s, by rw [hfound]⟩ ihneeds).trans ihrest

namespace Setting

variable {g : Setting} {before before' : String → Prop}

/-- `g.Orderly before log`: in this list, the last attempt first, every attempt is at the copy that is found, and each
name that it needs was attempted earlier, or was there before, or needs the attempted name in turn. -/
def Orderly (g : Setting) (before : String → Prop) : List Attempt → Prop
  | [] => True
  | a :: earlier => (a.found = g.found a.name ∧ ∀ d ∈ g.deps a.name,
      d ∈ earlier.map Attempt.name ∨ before d ∨ Relation.ReflTransGen g.Needs d a.name) ∧ g.Orderly before earlier

/-- One attempt of an orderly list. -/
theorem Orderly.of_append {later : List Attempt} (h : g.Orderly before (later ++ log)) : g.Orderly before log := by
  induction later with
  | nil => exact h
  | cons a later ih => exact ih h.2

/-- What was there before may be left out where it needs the attempted names in turn. -/
theorem Orderly.mono (h : g.Orderly before log)
    (hbefore : ∀ a ∈ log, ∀ d, before d → before' d ∨ Relation.ReflTransGen g.Needs d a.name) :
    g.Orderly before' log := by
  induction log with
  | nil => trivial
  | cons a earlier ih =>
    obtain ⟨⟨hfound, hdeps⟩, hearlier⟩ := h
    refine ⟨⟨hfound, fun d hd => ?_⟩, ih hearlier fun b hb => hbefore b (List.mem_cons_of_mem _ hb)⟩
    rcases hdeps d hd with hd | hd | hd
    · exact .inl hd
    · exact .inr (hbefore a List.mem_cons_self d hd)
    · exact .inr (.inr hd)

/-- One orderly list after another: what was attempted in the first is there before the second. -/
theorem Orderly.append {first second : List Attempt} (hfirst : g.Orderly before first)
    (hsecond : g.Orderly (fun d => before d ∨ d ∈ first.map Attempt.name) second) :
    g.Orderly before (second ++ first) := by
  induction second with
  | nil => exact hfirst
  | cons a earlier ih =>
    obtain ⟨⟨hfound, hdeps⟩, hearlier⟩ := hsecond
    refine ⟨⟨hfound, fun d hd => ?_⟩, ih hearlier⟩
    change d ∈ (earlier ++ first).map Attempt.name ∨ _
    rw [List.map_append, List.mem_append]
    rcases hdeps d hd with hd | (hd | hd) | hd
    · exact .inl (.inl hd)
    · exact .inr (.inl hd)
    · exact .inl (.inr hd)
    · exact .inr (.inr hd)

end Setting

/-- What a walk attempts can be reached from the names it began with. -/
theorem Traces.reached {g : Setting} (hg : g.Locates locator I) (h : Traces host locator names s log s')
    (hs : I s.workspace) :
    (∀ a ∈ log, ∃ m ∈ names, Relation.ReflTransGen g.Needs m a.name) ∧ I s'.workspace := by
  induction h with
  | done s => exact ⟨by simp, hs⟩
  | known hname _ ih =>
    refine ⟨fun a ha => ?_, (ih hs).2⟩
    obtain ⟨m, hm, hreach⟩ := (ih hs).1 a ha
    exact ⟨m, List.mem_cons_of_mem _ hm, hreach⟩
  | fresh hname hfound hneeds _ _ ihneeds ihrest =>
    obtain ⟨-, rfl, -, hs₂⟩ := hg.located_run (s := marked _ _) hs hfound hneeds
    obtain ⟨hbelow, hs₃⟩ := ihneeds hs₂
    obtain ⟨hafter, hs'⟩ := ihrest hs₃
    refine ⟨fun a ha => ?_, hs'⟩
    rcases List.mem_append.1 ha with ha | ha
    · obtain ⟨m, hm, hreach⟩ := hafter a ha
      exact ⟨m, List.mem_cons_of_mem _ hm, hreach⟩
    · rcases List.mem_cons.1 ha with rfl | ha
      · exact ⟨_, List.mem_cons_self, .refl⟩
      · obtain ⟨m, hm, hreach⟩ := hbelow a ha
        exact ⟨_, List.mem_cons_self, .head hm hreach⟩

/-- **Every walk is orderly**: what is needed comes first, but for what was recorded and for circles. -/
theorem Traces.orderly {g : Setting} (hg : g.Locates locator I) (h : Traces host locator names s log s')
    (hs : I s.workspace) : g.Orderly (Recorded s) log := by
  induction h with
  | done s => trivial
  | known _ _ ih => exact ih hs
  | @fresh name rest needs found below after s s₁ s₂ s₃ s' hname hfound hneeds hloads hrest ihneeds ihrest =>
    obtain ⟨rfl, rfl, hsame, hs₂⟩ := hg.located_run (s := marked _ _) hs hfound hneeds
    have hbelow := hloads.extends
    obtain ⟨hreached, hs₃⟩ := hloads.reached hg hs₂
    have hmarked : ∀ d, Recorded s₂ d ↔ d = name ∨ Recorded s d := fun d => by
      rw [hsame]
      exact recorded_marked
    -- Of what was recorded when the library was marked, only the library itself is new, and it needs what comes below.
    have hinner : g.Orderly (Recorded s) (⟨name, g.found name⟩ :: below) := by
      refine ⟨⟨rfl, fun d hd => ?_⟩, (ihneeds hs₂).mono fun a ha d hd => ?_⟩
      · have hrecorded : Recorded s₃ d := hloads.loads.all d hd
        rcases (hbelow.recorded d).1 hrecorded with hd | hd
        · rcases (hmarked d).1 hd with rfl | hd
          · exact .inr (.inr .refl)
          · exact .inr (.inl hd)
        · exact .inl hd
      · rcases (hmarked d).1 hd with rfl | hd
        · obtain ⟨m, hm, hreach⟩ := hreached a ha
          exact .inr (.head hm hreach)
        · exact .inl hd
    refine hinner.append ((ihrest hs₃).mono fun a _ d hd => .inl ?_)
    rw [List.map_cons, List.mem_cons]
    rcases recorded_concluded.1 hd with rfl | hd
    · exact .inr (.inl rfl)
    · rcases (hbelow.recorded d).1 hd with hd | hd
      · rcases (hmarked d).1 hd with rfl | hd
        · exact .inr (.inl rfl)
        · exact .inl hd
      · exact .inr (.inr hd)

/-! ## (3) Fixed files -/

/-- **What stays as it is** while libraries are loaded: where copies are found, and what files hold. -/
structure Shelf where
  /-- The bundled copy of a library, if there is one. -/
  found : String → Option String
  /-- The bytes of the file at a path, if there is one. -/
  content : String → Option ByteArray

namespace Shelf

variable {g : Shelf}

/-- The names that the file at a path declares, if it is understood. -/
def declares (g : Shelf) (path : String) : Option (List String) :=
  (g.content path).bind fun d => (Elf.declares d).toOption

/-- The copy of a library declares a name. -/
def Declares (g : Shelf) (n d : String) : Prop :=
  ∃ path names, g.found n = some path ∧ g.declares path = some names ∧ d ∈ names

/-- The copy of one library declares another one. The empty name stands for none. -/
def Needs (g : Shelf) (n d : String) : Prop := g.Declares n d ∧ d ≠ ""

/-- A shelf as a setting. The verdicts of the host do not matter for the order in which it is asked. -/
def setting (g : Shelf) : Setting := ⟨g.found, fun path => (g.declares path).map Elf.distinct, fun _ => .ok ()⟩

/-- A shelf needs what its setting does. -/
theorem needs_setting (n d : String) : g.setting.Needs n d ↔ g.Needs n d := by
  rw [Setting.Needs, Setting.deps, Needs, Declares]
  change d ∈ ((g.found n).bind fun path => (g.declares path).map Elf.distinct).getD [] ↔ _
  rcases g.found n with _ | path
  · simp
  rcases hdeclares : g.declares path with _ | names
  · simp [hdeclares]
  · simp [hdeclares, Elf.mem_distinct]

/-- So the same libraries are reached by it. -/
theorem reaches_setting {n d : String} (h : Relation.ReflTransGen g.setting.Needs d n) :
    Relation.ReflTransGen g.Needs d n := Relation.ReflTransGen.mono (fun n d => (needs_setting n d).1) _ _ h

/-- `g.Stands locator I`: in every workspace that satisfies `I`, the locator finds what `g` says and the files it finds
hold what `g` says, and `I` stays true. -/
structure Stands (g : Shelf) (locator : Locator) (I : Workspace → Prop) : Prop where
  /-- Only listed names have a copy. -/
  unlisted : ∀ n, n ∉ locator.names → g.found n = none
  /-- The locator answers a name the same way every time. That it fails means that there is no copy. -/
  located : ∀ w, I w → ∀ n ∈ locator.names, ((locator.locate n).outcome w).1.toOption.join = g.found n
  /-- The locator may change the workspace, yet nothing that matters here. -/
  kept : ∀ w, I w → ∀ n ∈ locator.names, I ((locator.locate n).outcome w).2
  /-- A copy that was found holds the same every time. -/
  content : ∀ w, I w → ∀ n ∈ locator.names, ∀ path, g.found n = some path →
    ((Workspace.read path).outcome ((locator.locate n).outcome w).2).1.toOption = g.content path

/-- What a file needs is told from its bytes. -/
theorem toOption_neededOf (path : String) (w : Workspace) : ((Elf.neededOf path).outcome w).1.toOption
    = (((Workspace.read path).outcome w).1.toOption.bind fun d => (Elf.declares d).toOption).map Elf.distinct := by
  rw [Elf.neededOf, outcome_bind, outcome_failingAs]
  rcases (Workspace.read path).outcome w with ⟨e | d, w'⟩
  · rfl
  · change ((Elf.needed d).mapError (NeedsFailure.elf path)).toOption = (Elf.declares d).toOption.map Elf.distinct
    rw [Elf.needed_eq]
    rcases Elf.declares d with e | names <;> rfl

/-- Where a shelf stands, its setting locates. -/
theorem Stands.locates (h : g.Stands locator I) : g.setting.Locates locator I where
  unlisted := h.unlisted
  located := h.located
  kept := h.kept
  needs w hw n hn path hpath := by rw [toOption_neededOf, h.content w hw n hn path hpath]; rfl

end Shelf

end Loader

end LayeredBundles
