import LayeredBundles.Proofs.Effects
import LayeredBundles.Proofs.Entries

/-! # How operations fail

What an operation can fail with is seen from its parts. Making the artifact of a file that a sound layer has can be
refused by the file system, or because the bytes cannot be read; never because there is no such file.

* **`Fallible.Raises`** — what all failures of an operation have in common, with its laws;
* **`Extraction.raises_makeArtifact`** — an artifact of a file is not missed;
* **`Hit.raises_realize`** — a hit is realized, or one of the artifacts that it asks for is not made;
* **`Hit.raises_realize_found`** — nothing that a hit asks for is missed. -/

namespace LayeredBundles

namespace Fallible

variable {σ τ ε ε' α β : Type} {P : ε → Prop}

/-! ## (1) Failures of composed operations -/

/-- `a.Raises P`: whatever `a` fails with satisfies `P`. -/
def Raises (P : ε → Prop) (a : Fallible σ ε α) : Prop := ∀ s e s', a.outcome s = (.error e, s') → P e

/-- A value raises nothing. -/
theorem raises_pure (x : α) : (pure x : Fallible σ ε α).Raises P := fun _ _ _ h => nomatch h

/-- Looking at the state raises nothing. -/
theorem raises_get : (get : Fallible σ ε σ).Raises P := fun _ _ _ h => nomatch h

/-- Putting another state in its place raises nothing. -/
theorem raises_set (s : σ) : (set s : Fallible σ ε PUnit).Raises P := fun _ _ _ h => nomatch h

/-- Changing the state raises nothing. -/
theorem raises_modify (f : σ → σ) : (modify f : Fallible σ ε PUnit).Raises P := fun _ _ _ h => nomatch h

/-- What is thrown is raised. -/
theorem raises_throw {e : ε} (h : P e) : (throw e : Fallible σ ε α).Raises P := by
  intro s e' s' hout
  cases hout
  exact h

/-- A result raises the error that it is. -/
theorem raises_ofExcept {r : Except ε α} (h : ∀ e, r = .error e → P e) : (ofExcept r : Fallible σ ε α).Raises P := by
  intro s e s' hout
  rw [outcome_ofExcept, Prod.mk.injEq] at hout
  exact h e hout.1

/-- Failing in another way raises only errors of that way. -/
theorem raises_failingAs {f : ε' → ε} (a : Fallible σ ε' α) (h : ∀ e, P (f e)) : (a.failingAs f).Raises P := by
  intro s e s' hout
  rw [outcome_failingAs, Prod.mk.injEq] at hout
  rcases ha : (a.outcome s).1 with e' | x
  · rw [ha] at hout
    cases hout.1
    exact h e'
  · rw [ha] at hout
    cases hout.1

/-- An attempt raises nothing. -/
theorem raises_attempt (a : Fallible σ ε' α) : (a.attempt : Fallible σ ε _).Raises P := fun _ _ _ h => nomatch h

/-- What follows raises what the first part raises, or what it raises itself after a value that was reached. -/
theorem Raises.bind {a : Fallible σ ε α} {f : α → Fallible σ ε β} (ha : a.Raises P)
    (hf : ∀ s x s', a.outcome s = (.ok x, s') → (f x).Raises P) : (a >>= f).Raises P := by
  intro s e s' hout
  rcases hfirst : a.outcome s with ⟨e' | x, s₁⟩
  · rw [outcome_bind_error hfirst] at hout
    cases hout
    exact ha s _ _ hfirst
  · rw [outcome_bind_ok hfirst] at hout
    exact hf s x s₁ hfirst s₁ e s' hout

/-- What follows an attempt is told with what the operation failed. -/
theorem Raises.attempt_bind {P' : ε' → Prop} {a : Fallible σ ε' α} {f : Except ε' α → Fallible σ ε β} (ha : a.Raises P')
    (hok : ∀ x, (f (.ok x)).Raises P) (herror : ∀ e, P' e → (f (.error e)).Raises P) :
    (a.attempt >>= f).Raises P := by
  refine (raises_attempt a).bind fun s r s' hout => ?_
  rw [outcome_attempt] at hout
  cases hout
  rcases hfirst : a.outcome s with ⟨e | x, s'⟩
  · exact herror e (ha s e s' hfirst)
  · exact hok x

/-- Doing something on a part of the state raises what doing it raises. -/
theorem Raises.onto {part : τ → σ} {put : σ → τ → τ} {a : Fallible σ ε α} (h : a.Raises P) :
    (a.onto part put).Raises P := by
  intro t e t' hout
  rw [outcome_onto, Prod.mk.injEq] at hout
  exact h (part t) e _ (Prod.ext hout.1 rfl)

/-- A loop raises what one of its rounds raises. -/
theorem Raises.forIn {γ : Type} {xs : List γ} {f : γ → PUnit → Fallible σ ε (ForInStep PUnit)}
    (h : ∀ x ∈ xs, (f x PUnit.unit).Raises P) : (forIn xs PUnit.unit f).Raises P := by
  induction xs with
  | nil => exact raises_pure _
  | cons x xs ih =>
    rw [List.forIn_cons]
    refine (h x List.mem_cons_self).bind fun s step s' hstep => ?_
    cases step with
    | done u => exact raises_pure _
    | yield u => exact ih fun x' hx' => h x' (List.mem_cons_of_mem _ hx')

end Fallible

open Fallible

/-- A failure that is not that of a name that was not found. -/
def ImportFailure.Found (e : ImportFailure) : Prop := ∀ name, e ≠ .notFound name

/-- A refusal of the file system never says that a name was not found. -/
theorem ImportFailure.found_ofFile (e : FileError) : (ofFile e).Found := fun _ => ImportFailure.noConfusion

/-- Only what an archive has not found is not found. -/
theorem ImportFailure.found_ofArchive {e : BundleError} (h : ∀ path, e ≠ .notFound path) : (ofArchive e).Found := by
  cases e with
  | notFound path => exact absurd rfl (h path)
  | isDirectory | notDirectory | corrupt | io => exact fun _ => ImportFailure.noConfusion

/-! ## (2) Artifacts -/

namespace Extraction

open ImportFailure

variable {P : ImportFailure → Prop} {l : Layer} {e : Entry} {dir path : String}

section Parts

-- A refusal of the file system may be met at every step.
variable (hfile : ∀ x, P (ofFile x))

include hfile

/-- Writing an entry raises what reading it raises, or what the file system does. -/
theorem raises_writeEntry (hread : ∀ x, (l.writeOut e.path).2 = .error x → P (ofArchive x)) (dest : String) :
    (writeEntry l e dest).Raises P := by
  unfold writeEntry
  refine (raises_failingAs _ hfile).bind fun _ _ _ _ => ?_
  refine (raises_ofExcept fun x hx => ?_).bind fun _ _ _ _ => raises_failingAs _ hfile
  change (l.writeOut e.path).2.mapError ofArchive = .error x at hx
  rcases hout : (l.writeOut e.path).2 with cause | n
  · rw [hout] at hx
    cases hx
    exact hread cause hout
  · rw [hout] at hx
    cases hx

/-- Moving a file, or discarding it, raises refusals of the file system alone. -/
theorem raises_moveOrDiscard (temporary dest : String) : (moveOrDiscard temporary dest).Raises P := by
  unfold moveOrDiscard
  refine (raises_attempt _).bind fun _ r _ _ => ?_
  rcases r with e | ⟨⟨⟩⟩
  · refine Raises.bind ?_ fun _ _ _ _ => raises_throw (hfile e)
    exact (raises_attempt _).bind fun _ _ _ _ => raises_pure _
  · exact raises_pure _

/-- So does moving it into place with a second attempt. -/
theorem raises_moveIntoPlace (temporary dest : String) : (moveIntoPlace temporary dest).Raises P := by
  unfold moveIntoPlace
  refine raises_get.bind fun _ w _ _ => ?_
  dsimp only
  split
  · exact (raises_failingAs _ hfile).bind fun _ _ _ _ => raises_moveOrDiscard hfile temporary dest
  · exact raises_moveOrDiscard hfile temporary dest

/-- What producing an artifact fails with: a refusal of the file system, or what reading the file fails with. -/
theorem raises_produce (hread : ∀ x, (l.writeOut e.path).2 = .error x → P (ofArchive x)) {dest : String}
    (hparent : DiskPath.parent? dest = none → P (.accessDenied e.path)) : (produce l e dest).Raises P := by
  unfold produce
  split
  · refine (raises_failingAs _ hfile).bind fun _ _ _ _ => Raises.bind ?_ fun _ temporary _ _ => ?_
    · exact raises_get.bind fun _ w _ _ => (raises_set _).bind fun _ _ _ _ => raises_pure _
    refine (raises_writeEntry hfile hread temporary).attempt_bind (fun _ => raises_moveIntoPlace hfile temporary dest)
      fun cause hcause => ?_
    refine Raises.bind ?_ fun _ _ _ _ => raises_throw hcause
    exact (raises_attempt _).bind fun _ _ _ _ => raises_pure _
  · next hnone =>
    refine raises_throw (hparent ?_)
    rcases hfront : DiskPath.parent? dest with _ | front
    · rfl
    · exact absurd hfront (hnone front)

end Parts

/-- **What making an artifact of a file fails with**: a refusal of the file system, what reading the file fails with, or
that its path is not contained. -/
theorem raises_makeArtifact_of_isFile (hlisted : l.isFile path = true) (hfile : ∀ x, P (ofFile x))
    (hread : ∀ p x, l.isFile p = true → (l.writeOut p).2 = .error x → P (ofArchive x))
    (hdenied : ∀ p, P (.accessDenied p)) : (makeArtifact dir l path).Raises P := by
  obtain ⟨e, hentry, hdir⟩ := Layer.isFile_iff.1 hlisted
  rw [← Layer.isFile_normalize, ← Layer.entry_path hentry] at hlisted
  unfold makeArtifact
  rw [hentry]
  refine (raises_ofExcept fun _ h => nomatch h).bind fun _ e' _ he => ?_
  cases he
  simp only [hdir, Bool.false_eq_true, ↓reduceIte]
  refine (raises_ofExcept fun x hx => ?_).bind fun _ dest _ _ => raises_get.bind fun _ w _ _ => ?_
  · unfold artifactPath contained at hx
    split at hx <;> cases hx
    exact hdenied _
  · split
    · exact raises_pure _
    · have hproduce : (produce l e dest).Raises P :=
        raises_produce hfile (fun x => hread e.path x hlisted) fun _ => hdenied _
      exact hproduce.bind fun _ _ _ _ => raises_pure _

/-- **An artifact of a file is not missed**: of what a sound layer has nothing is found missing. -/
theorem raises_makeArtifact (hl : l.Sound) (hfile : l.isFile path = true) : (makeArtifact dir l path).Raises Found :=
  raises_makeArtifact_of_isFile hfile found_ofFile
    (fun _ _ hlisted hx => found_ofArchive fun p heq => hl.writeOut_ne_notFound hlisted p (heq ▸ hx))
    fun _ _ => ImportFailure.noConfusion

end Extraction

/-! ## (3) What a hit asks for -/

section Requests

variable {P : ImportFailure → Prop} {r : Root} {layout : Layout} {i : Nat} {l : Layer} {path package : String}

namespace Root

/-- Work on the workspace of a root raises what it raises by itself. -/
theorem raises_ofWork {α : Type} {a : Work ImportFailure α} (h : a.Raises P) : (RootWork.ofWork a).Raises P := h.onto

/-- An artifact of a root raises what making it from its layer raises. -/
theorem raises_makeArtifact (hlayer : (i, l) ∈ r.openLayers) (h : (Extraction.makeArtifact r.dir l path).Raises P) :
    (r.makeArtifact i path).Raises P := by
  unfold makeArtifact
  rw [layerAt_eq_ok.2 hlayer]
  refine (raises_ofExcept fun _ h => nomatch h).bind fun _ l' _ hl' => ?_
  cases hl'
  exact raises_ofWork h

/-- Unpacking a package fails only as making one of its artifacts does. -/
theorem raises_unpackPackage (h : ∀ l ∈ r.openLayers, ∀ path ∈ r.packageData layout l.2 package,
    (Extraction.makeArtifact r.dir l.2 path).Raises P) : (r.unpackPackage layout package).Raises P := by
  unfold unpackPackage
  refine raises_get.bind fun _ s _ _ => ?_
  split
  · exact raises_pure _
  · refine Raises.bind (Raises.forIn fun f hf => ?_) fun _ _ _ _ => ?_
    · obtain ⟨l, hl, hf⟩ := List.mem_flatMap.1 hf
      obtain ⟨path, hpath, rfl⟩ := List.mem_map.1 hf
      exact (raises_ofWork (h l hl path hpath)).bind fun _ _ _ _ => raises_pure _
    · exact (raises_modify _).bind fun _ _ _ _ => raises_pure _

end Root

namespace Hit

variable {h : Hit}

/-- The file of a hit fails only as its artifact does. -/
theorem raises_extractSource (hlayer : (h.layer, l) ∈ r.openLayers)
    (hsource : (Extraction.makeArtifact r.dir l h.path).Raises P) (name : String) :
    (h.extractSource r name).Raises P := by
  unfold extractSource
  split
  · exact (Root.raises_makeArtifact hlayer hsource).bind fun _ _ _ _ => raises_pure _
  · exact raises_pure _

/-- Realizing a hit fails only as making one of the artifacts does that it asks for. -/
theorem raises_realize (hdata : ∀ package, ∀ l ∈ r.openLayers, ∀ path ∈ r.packageData layout l.2 package,
      (Extraction.makeArtifact r.dir l.2 path).Raises P)
    (hlayer : (h.layer, l) ∈ r.openLayers) (hsource : (Extraction.makeArtifact r.dir l h.path).Raises P)
    (name : String) : (h.realize r layout name).Raises P := by
  have hrest := raises_extractSource hlayer hsource name
  rw [realize_eq]
  split
  · exact (Root.raises_unpackPackage (hdata _)).bind fun _ _ _ _ => hrest
  · exact hrest

/-- **Nothing that a hit asks for** is missed. -/
theorem raises_realize_found (hsound : ∀ l ∈ r.openLayers, l.2.Sound) (hlayer : (h.layer, l) ∈ r.openLayers)
    (hfile : l.isFile h.path = true) (layout : Layout) (name : String) :
    (h.realize r layout name).Raises ImportFailure.Found :=
  raises_realize
    (fun _ l hl _ hpath => Extraction.raises_makeArtifact (hsound l hl) (Root.isFile_of_mem_packageData hpath)) hlayer
    (Extraction.raises_makeArtifact (hsound _ hlayer) hfile) name

end Hit

end Requests

end LayeredBundles
