import LayeredBundles.Native.Loader

/-! # What fallible operations do to their state

Every operation leaves an outcome and a state. This file gives one equation for each way of building an
operation, and two rules that follow an operation step by step:

* **`Fallible.Yields a s Q`** — run in `s`, the outcome and the state satisfy `Q`;
* **`Fallible.Preserves I a`** — however `a` ends, what held of the state holds of the state it leaves. -/

namespace LayeredBundles

namespace Fallible

variable {σ τ ε ε' α β : Type}

/-! ## (1) Outcomes -/

/-- A value is the outcome of itself. -/
@[simp] theorem outcome_pure (x : α) (s : σ) :
    (pure x : Fallible σ ε α).outcome s = (.ok x, s) := rfl

/-- An error leaves the state as it is. -/
@[simp] theorem outcome_throw (e : ε) (s : σ) :
    (throw e : Fallible σ ε α).outcome s = (.error e, s) := rfl

/-- What follows is done in the state that was left, or not at all after an error. -/
theorem outcome_bind (a : Fallible σ ε α) (f : α → Fallible σ ε β) (s : σ) :
    (a >>= f).outcome s = match a.outcome s with
      | (.ok x, s') => (f x).outcome s'
      | (.error e, s') => (.error e, s') := by
  simp only [outcome, ExceptT.run_bind, StateT.run_bind]
  rcases StateT.run (ExceptT.run a) s with ⟨r | r, s'⟩ <;> rfl

/-- After a value what follows is done with it. -/
theorem outcome_bind_ok {a : Fallible σ ε α} {x : α} {s s' : σ} (h : a.outcome s = (.ok x, s'))
    (f : α → Fallible σ ε β) : (a >>= f).outcome s = (f x).outcome s' := by
  rw [outcome_bind, h]

/-- After an error what follows is not done. -/
theorem outcome_bind_error {a : Fallible σ ε α} {e : ε} {s s' : σ} (h : a.outcome s = (.error e, s'))
    (f : α → Fallible σ ε β) : (a >>= f).outcome s = (.error e, s') := by
  rw [outcome_bind, h]

/-- An operation that ends well has had a first step that ended well. -/
theorem exists_of_outcome_bind_ok {a : Fallible σ ε α} {f : α → Fallible σ ε β} {y : β} {s s'' : σ}
    (h : (a >>= f).outcome s = (.ok y, s'')) :
    ∃ x s', a.outcome s = (.ok x, s') ∧ (f x).outcome s' = (.ok y, s'') := by
  rw [outcome_bind] at h
  rcases ha : a.outcome s with ⟨r | x, s'⟩
  · rw [ha] at h; cases h
  · rw [ha] at h; exact ⟨x, s', rfl, h⟩

/-- The state is looked at. -/
@[simp] theorem outcome_get (s : σ) : (get : Fallible σ ε σ).outcome s = (.ok s, s) := rfl

/-- The same by its type. -/
@[simp] theorem outcome_getThe (s : σ) : (getThe σ : Fallible σ ε σ).outcome s = (.ok s, s) := rfl

/-- Another state is put in its place. -/
@[simp] theorem outcome_set (s s' : σ) : (set s' : Fallible σ ε PUnit).outcome s = (.ok (), s') := rfl

/-- The state is changed. -/
@[simp] theorem outcome_modify (f : σ → σ) (s : σ) :
    (modify f : Fallible σ ε PUnit).outcome s = (.ok (), f s) := rfl

/-- What is given by its outcomes has them. -/
@[simp] theorem outcome_ofOutcome (f : σ → Except ε α × σ) (s : σ) : (ofOutcome f).outcome s = f s := rfl

/-- An attempt ends well, with the result of what was attempted. -/
@[simp] theorem outcome_attempt (a : Fallible σ ε α) (s : σ) :
    (a.attempt : Fallible σ ε' _).outcome s = (.ok (a.outcome s).1, (a.outcome s).2) := rfl

/-- To fail in another way changes the error alone. -/
@[simp] theorem outcome_failingAs (f : ε → ε') (a : Fallible σ ε α) (s : σ) :
    (a.failingAs f).outcome s = ((a.outcome s).1.mapError f, (a.outcome s).2) := rfl

/-- What is done on a part of the state leaves the rest to `put`. -/
@[simp] theorem outcome_onto (part : τ → σ) (put : σ → τ → τ) (a : Fallible σ ε α) (t : τ) :
    (a.onto part put).outcome t = ((a.outcome (part t)).1, put (a.outcome (part t)).2 t) := rfl

/-- A result leaves the state as it is. -/
@[simp] theorem outcome_ofExcept (r : Except ε α) (s : σ) :
    (ofExcept r : Fallible σ ε α).outcome s = (r, s) := rfl

/-- Another error makes no difference to values. -/
theorem mapError_eq_ok {f : ε → ε'} {r : Except ε α} {x : α} : r.mapError f = .ok x ↔ r = .ok x := by
  cases r with
  | error _ => constructor <;> intro h <;> cases h
  | ok _ => constructor <;> intro h <;> cases h <;> rfl

/-- How an operation ends, and the state it leaves. -/
theorem outcome_eq_of_fst {a : Fallible σ ε α} {s : σ} {r : Except ε α} (h : (a.outcome s).1 = r) :
    a.outcome s = (r, (a.outcome s).2) := by rw [← h]

/-! ## (2) What an operation yields -/

/-- `a.Yields s Q`: run in `s`, the outcome of `a` and the state it leaves satisfy `Q`. -/
def Yields (a : Fallible σ ε α) (s : σ) (Q : Except ε α → σ → Prop) : Prop :=
  Q (a.outcome s).1 (a.outcome s).2

/-- What is yielded holds of how the operation ends and the state it leaves. -/
theorem Yields.of_outcome {a : Fallible σ ε α} {s s' : σ} {Q : Except ε α → σ → Prop} {r : Except ε α}
    (h : a.Yields s Q) (hout : a.outcome s = (r, s')) : Q r s' := by
  rwa [Yields, hout] at h

/-- Less may be said of an outcome. -/
theorem Yields.mono {a : Fallible σ ε α} {s : σ} {Q Q' : Except ε α → σ → Prop} (h : a.Yields s Q)
    (hQ : ∀ r s', Q r s' → Q' r s') : a.Yields s Q' := hQ _ _ h

/-- What is said of one outcome is said at once. -/
theorem Yields.and {a : Fallible σ ε α} {s : σ} {Q Q' : Except ε α → σ → Prop} (h : a.Yields s Q) (h' : a.Yields s Q') :
    a.Yields s fun r s' => Q r s' ∧ Q' r s' := ⟨h, h'⟩

/-- Step by step: what the first operation yields is where the second one starts. -/
theorem Yields.bind {a : Fallible σ ε α} {f : α → Fallible σ ε β} {s : σ}
    {Q : Except ε β → σ → Prop} {P : Except ε α → σ → Prop} (ha : a.Yields s P)
    (hok : ∀ x s', P (.ok x) s' → (f x).Yields s' Q)
    (herror : ∀ e s', P (.error e) s' → Q (.error e) s') : (a >>= f).Yields s Q := by
  unfold Yields at *
  rw [outcome_bind]
  rcases h : a.outcome s with ⟨e | x, s'⟩
  · rw [h] at ha; exact herror e s' ha
  · rw [h] at ha; exact hok x s' ha

/-- A value yields what holds of it in the state there is. -/
theorem yields_pure {x : α} {s : σ} {Q : Except ε α → σ → Prop} :
    (pure x : Fallible σ ε α).Yields s Q ↔ Q (.ok x) s := Iff.rfl

/-- A look at the state goes on from it. -/
theorem yields_get_bind {f : σ → Fallible σ ε β} {s : σ} {Q : Except ε β → σ → Prop} :
    (get >>= f).Yields s Q ↔ (f s).Yields s Q := by
  rw [Yields, outcome_bind]
  rfl

/-- An attempt goes on however it ended. -/
theorem yields_attempt_bind {a : Fallible σ ε' α} {f : Except ε' α → Fallible σ ε β} {s : σ}
    {Q : Except ε β → σ → Prop} :
    ((a.attempt : Fallible σ ε _) >>= f).Yields s Q ↔ (f (a.outcome s).1).Yields (a.outcome s).2 Q := by
  rw [Yields, outcome_bind]
  rfl

/-- What fails in another way yields what is said of the errors it was made from. -/
theorem yields_failingAs {a : Fallible σ ε' α} {f : ε' → ε} {s : σ} {Q : Except ε α → σ → Prop} :
    (a.failingAs f).Yields s Q ↔ a.Yields s fun r s' => Q (r.mapError f) s' := Iff.rfl

/-! ## (3) What an operation preserves -/

/-- `a.Preserves I`: what holds of a state before `a` holds of the state it leaves, however it ends. -/
def Preserves (I : σ → Prop) (a : Fallible σ ε α) : Prop := ∀ s, I s → a.Yields s fun _ s' => I s'

variable {I : σ → Prop}

/-- A value preserves anything. -/
theorem preserves_pure (x : α) : (pure x : Fallible σ ε α).Preserves I := fun _ h => h

/-- So does an error. -/
theorem preserves_throw (e : ε) : (throw e : Fallible σ ε α).Preserves I := fun _ h => h

/-- So does a result, whichever it is. -/
theorem preserves_ofExcept (r : Except ε α) : (ofExcept r : Fallible σ ε α).Preserves I := fun _ h => h

/-- So does looking at the state. -/
theorem preserves_get : (get : Fallible σ ε σ).Preserves I := fun _ h => h

/-- A change preserves what it preserves of every state. -/
theorem preserves_modify {f : σ → σ} (h : ∀ s, I s → I (f s)) :
    (modify f : Fallible σ ε PUnit).Preserves I := h

/-- Two parts preserve what both preserve. -/
theorem Preserves.bind {a : Fallible σ ε α} {f : α → Fallible σ ε β} (ha : a.Preserves I)
    (hf : ∀ x, (f x).Preserves I) : (a >>= f).Preserves I := fun s hs =>
  (ha s hs).bind (fun x s' hs' => hf x s' hs') fun _ _ hs' => hs'

/-- What does not depend on the state goes on with its answer. -/
theorem Preserves.ofExcept_bind {r : Except ε α} {f : α → Fallible σ ε β}
    (h : ∀ x, r = .ok x → (f x).Preserves I) : (ofExcept r >>= f).Preserves I := by
  intro s hs
  rw [Yields, outcome_bind, outcome_ofExcept]
  cases r with
  | error e => exact hs
  | ok x => exact h x rfl s hs

/-- An attempt preserves what the attempted does. -/
theorem Preserves.attempt {a : Fallible σ ε α} (h : a.Preserves I) :
    (a.attempt : Fallible σ ε' _).Preserves I := h

/-- So does failing in another way. -/
theorem Preserves.failingAs {a : Fallible σ ε α} (h : a.Preserves I) (f : ε → ε') :
    (a.failingAs f).Preserves I := h

/-- An operation on a part of the state preserves of the whole what it preserves of the part. -/
theorem Preserves.onto {J : τ → Prop} {part : τ → σ} {put : σ → τ → τ} {a : Fallible σ ε α}
    (h : a.Preserves I) (hpart : ∀ t, J t → I (part t)) (hput : ∀ t s, J t → I s → J (put s t)) :
    (a.onto part put).Preserves J := fun t ht => hput t _ ht (h (part t) (hpart t ht))

/-- A loop preserves what every round of it preserves. -/
theorem Preserves.forIn {γ : Type} {xs : List γ} {f : γ → PUnit → Fallible σ ε (ForInStep PUnit)}
    (h : ∀ x ∈ xs, (f x ⟨⟩).Preserves I) : (ForIn.forIn xs PUnit.unit f).Preserves I := by
  induction xs with
  | nil => exact preserves_pure _
  | cons x xs ih =>
    rw [List.forIn_cons]
    refine (h x (by simp)).bind fun step => ?_
    cases step with
    | done b => exact preserves_pure _
    | yield b => exact ih fun y hy => h y (List.mem_cons_of_mem _ hy)

/-- Steps one after the other preserve what each of them preserves. -/
theorem Preserves.mapM {γ : Type} {xs : List γ} {f : γ → Fallible σ ε α}
    (h : ∀ x ∈ xs, (f x).Preserves I) : (xs.mapM f).Preserves I := by
  induction xs with
  | nil => exact preserves_pure _
  | cons x xs ih =>
    rw [List.mapM_cons]
    exact (h x (by simp)).bind fun _ =>
      (ih fun y hy => h y (List.mem_cons_of_mem _ hy)).bind fun _ => preserves_pure _

/-! ## (4) Loops that end well -/

/-- In a loop that ends well every round has ended well, so what each of them carries on holds in the end. -/
theorem of_outcome_forIn_ok {γ : Type} {f : γ → PUnit → Fallible σ ε (ForInStep PUnit)} {K : List γ → σ → Prop}
    (hround : ∀ done x s step s', K done s → (f x ⟨⟩).outcome s = (.ok step, s') →
      step = .yield ⟨⟩ ∧ K (done ++ [x]) s') {xs done : List γ} {s s' : σ} {u : PUnit} (hs : K done s)
    (h : (ForIn.forIn xs PUnit.unit f).outcome s = (.ok u, s')) : K (done ++ xs) s' := by
  induction xs generalizing done s with
  | nil =>
    cases h
    simpa using hs
  | cons x xs ih =>
    rw [List.forIn_cons] at h
    obtain ⟨step, s₁, hfirst, hrest⟩ := exists_of_outcome_bind_ok h
    obtain ⟨rfl, hnext⟩ := hround done x s step s₁ hs hfirst
    rw [List.append_cons]
    exact ih hnext hrest

end Fallible

end LayeredBundles
