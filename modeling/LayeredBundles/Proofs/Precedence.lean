import LayeredBundles.Proofs.Failures
import LayeredBundles.Proofs.Artifacts
import LayeredBundles.Proofs.Operations
import Mathlib.Data.Prod.Lex

/-! # Which unit a name resolves to

In a root a name may be held in many places: as a package or a module, in each kind, in each layer, with each suffix.
These places have an order, that of the four choices one after another. What a name resolves to is the least place in
the first root that holds it at all, unless a root before that has a layer that is not open.

* **`Candidate`** — a place in a root; **`Candidate.rank`** is its priority, the least one first;
* **`Root.Holds`** — a root has a file for a name in that place;
* **`Root.find?_least`**, **`find?_none`** — the search in a root finds the least place, if there is one;
* **`Importer.Verdict`** — what a name resolves to, told without any search;
* **`Importer.resolve_verdict`** — resolving gives just that, whatever was done before. -/

namespace LayeredBundles

open Fallible

/-! ## (1) Candidates -/

/-- The position of a form among the forms. -/
def Form.rank : Form → Nat
  | .package => 0
  | .module => 1

/-- The position of a kind among the kinds. -/
def Kind.rank : Kind → Nat
  | .bytecode => 0
  | .source => 1
  | .native => 2

/-- No two forms have the same rank. -/
theorem Form.rank_injective : Function.Injective Form.rank := fun a b h => by
  cases a <;> cases b <;> first | rfl | cases h

/-- No two kinds have the same rank. -/
theorem Kind.rank_injective : Function.Injective Kind.rank := fun a b h => by
  cases a <;> cases b <;> first | rfl | cases h

/-- All forms are tried. -/
theorem Form.mem_all (form : Form) : form ∈ Form.all := by cases form <;> decide

/-- All kinds are tried. -/
theorem Kind.mem_all (kind : Kind) : kind ∈ Kind.all := by cases kind <;> decide

/-- A place in a root in which it may hold a name. -/
structure Candidate where
  /-- The form of the unit. -/
  form : Form
  /-- The kind of the unit. -/
  kind : Kind
  /-- The position of the layer. -/
  layer : Nat
  /-- The position of the suffix among those of its kind. -/
  suffix : Nat
  deriving DecidableEq, Repr

/-- The priority of a candidate, the least one first: by form, then by kind, by layer and by suffix. -/
def Candidate.rank (c : Candidate) : ℕ ×ₗ ℕ ×ₗ ℕ ×ₗ ℕ :=
  toLex (c.form.rank, toLex (c.kind.rank, toLex (c.layer, c.suffix)))

/-- No two candidates have one priority. -/
theorem Candidate.rank_injective : Function.Injective Candidate.rank := by
  rintro ⟨form, kind, layer, suffix⟩ ⟨form', kind', layer', suffix'⟩ h
  simp only [rank, EmbeddingLike.apply_eq_iff_eq, Prod.mk.injEq] at h
  obtain ⟨hform, hkind, rfl, rfl⟩ := h
  cases Form.rank_injective hform
  cases Kind.rank_injective hkind
  rfl

/-- A place comes first when it does at the first choice in which they differ. -/
theorem Candidate.rank_le {c c' : Candidate} (hform : c.form.rank ≤ c'.form.rank)
    (hkind : c.form = c'.form → c.kind.rank ≤ c'.kind.rank)
    (hlayer : c.form = c'.form → c.kind = c'.kind → c.layer ≤ c'.layer)
    (hsuffix : c.form = c'.form → c.kind = c'.kind → c.layer = c'.layer → c.suffix ≤ c'.suffix) : c.rank ≤ c'.rank := by
  simp only [rank, Prod.Lex.toLex_le_toLex]
  rcases lt_or_eq_of_le hform with hlt | heq
  · exact .inl hlt
  have hform := Form.rank_injective heq
  rcases lt_or_eq_of_le (hkind hform) with hlt | heq'
  · exact .inr ⟨heq, .inl hlt⟩
  have hkind := Kind.rank_injective heq'
  rcases lt_or_eq_of_le (hlayer hform hkind) with hlt | heq''
  · exact .inr ⟨heq, .inr ⟨heq', .inl hlt⟩⟩
  · exact .inr ⟨heq, .inr ⟨heq', .inr ⟨heq'', hsuffix hform hkind heq''⟩⟩⟩

/-! ## (2) The search in a root -/

/-- What a search in order finds is found at the least place at which there is anything. -/
theorem exists_least_of_findSome? {α β : Type} (rank : α → ℕ) {f : α → Option β} {xs : List α} {b : β}
    (hsorted : xs.Pairwise fun x y => rank x < rank y) (h : xs.findSome? f = some b) :
    ∃ x ∈ xs, f x = some b ∧ ∀ y ∈ xs, (f y).isSome → rank x ≤ rank y := by
  obtain ⟨before, x, after, rfl, hx, hbefore⟩ := List.findSome?_eq_some_iff.1 h
  refine ⟨x, by simp, hx, fun y hy hsome => ?_⟩
  rcases List.mem_append.1 hy with hy | hy
  · simp [hbefore y hy] at hsome
  · rcases List.mem_cons.1 hy with rfl | hy
    · exact le_rfl
    · exact le_of_lt ((List.pairwise_cons.1 (List.pairwise_append.1 hsorted).2.1).1 y hy)

namespace Root

variable {r : Root} {layout : Layout} {path p p' : String} {c c' : Candidate} {hit : Hit}

/-- `r.Holds layout path c p`: in that place the root holds the name of that path; the file stands at `p` in its
layer. -/
def Holds (r : Root) (layout : Layout) (path : String) (c : Candidate) (p : String) : Prop :=
  ∃ l token suffix, r.slots[c.layer]? = some (.opened l token) ∧ (layout.suffixes c.kind)[c.suffix]? = some suffix ∧
    p = layout.pathFor path c.form suffix ∧ l.isFile p = true

/-- The path in the layer depends on the place. -/
theorem Holds.path_unique (h : r.Holds layout path c p) (h' : r.Holds layout path c p') : p = p' := by
  obtain ⟨_, _, suffix, -, hsuffix, rfl, -⟩ := h
  obtain ⟨_, _, suffix', -, hsuffix', rfl, -⟩ := h'
  rw [hsuffix] at hsuffix'
  cases hsuffix'
  rfl

/-! The search makes four choices one after another. -/

/-- The hit in a layer, with a suffix. -/
def hitWith? (layout : Layout) (path : String) (form : Form) (kind : Kind) (l : Nat × Layer) (suffix : String) :
    Option Hit :=
  if l.2.isFile (layout.pathFor path form suffix) then some ⟨form, l.1, kind, layout.pathFor path form suffix⟩ else none

/-- The first hit in a layer. -/
def hitIn? (layout : Layout) (path : String) (form : Form) (kind : Kind) (l : Nat × Layer) : Option Hit :=
  (layout.suffixes kind).findSome? (hitWith? layout path form kind l)

/-- The first hit of a kind. -/
def hitOf? (r : Root) (layout : Layout) (path : String) (form : Form) (kind : Kind) : Option Hit :=
  r.openLayers.findSome? (hitIn? layout path form kind)

/-- **A root looks** for one form after the other, for each kind of it, in each layer. -/
theorem find?_eq (r : Root) (layout : Layout) (path : String) :
    r.find? layout path = Form.all.findSome? fun form => Kind.all.findSome? (r.hitOf? layout path form) := rfl

/-- Where a root holds a name, there is something to be found at each choice. -/
theorem Holds.isSome (h : r.Holds layout path c p) :
    (Kind.all.findSome? (r.hitOf? layout path c.form)).isSome ∧ (r.hitOf? layout path c.form c.kind).isSome ∧
      ∃ l, (c.layer, l) ∈ r.openLayers ∧ (hitIn? layout path c.form c.kind (c.layer, l)).isSome ∧
        ∃ suffix, (suffix, c.suffix) ∈ (layout.suffixes c.kind).zipIdx ∧
          (hitWith? layout path c.form c.kind (c.layer, l) suffix).isSome := by
  obtain ⟨l, token, suffix, hslot, hsuffix, rfl, hfile⟩ := h
  have hl := mem_openLayers.2 ⟨token, hslot⟩
  have hwith : (hitWith? layout path c.form c.kind (c.layer, l) suffix).isSome := by simp [hitWith?, hfile]
  have hin : (hitIn? layout path c.form c.kind (c.layer, l)).isSome :=
    List.findSome?_isSome_iff.2 ⟨suffix, List.mem_of_getElem? hsuffix, hwith⟩
  have hof : (r.hitOf? layout path c.form c.kind).isSome := List.findSome?_isSome_iff.2 ⟨_, hl, hin⟩
  exact ⟨List.findSome?_isSome_iff.2 ⟨_, Kind.mem_all _, hof⟩, hof, l, hl, hin, suffix,
    List.mem_zipIdx_iff_getElem?.2 hsuffix, hwith⟩

/-- `r.Least layout path c p`: the root holds the name in that place, and in none of a higher priority. -/
structure Least (r : Root) (layout : Layout) (path : String) (c : Candidate) (p : String) : Prop where
  /-- It holds the name there. -/
  holds : r.Holds layout path c p
  /-- Every other place comes later. -/
  least : ∀ c' p', r.Holds layout path c' p' → c.rank ≤ c'.rank

/-- There is but one least place. -/
theorem Least.unique (h : r.Least layout path c p) (h' : r.Least layout path c' p') : c = c' ∧ p = p' := by
  have hc : c = c' := Candidate.rank_injective (le_antisymm (h.least c' p' h'.holds) (h'.least c p h.holds))
  subst hc
  exact ⟨rfl, h.holds.path_unique h'.holds⟩

/-- **The search in a root finds the least place** in which the root holds the name. -/
theorem find?_least (h : r.find? layout path = some hit) :
    ∃ c, hit = ⟨c.form, c.layer, c.kind, hit.path⟩ ∧ r.Least layout path c hit.path := by
  rw [find?_eq] at h
  obtain ⟨form, -, h, hform⟩ := exists_least_of_findSome? Form.rank (by decide) h
  obtain ⟨kind, -, h, hkind⟩ := exists_least_of_findSome? Kind.rank (by decide) h
  obtain ⟨⟨j, l⟩, hl, h, hlayer⟩ := exists_least_of_findSome? Prod.fst r.pairwise_openLayers h
  -- Suffixes are told apart by their positions, for one may be listed twice.
  rw [hitIn?, ← List.zipIdx_map_fst 0 (layout.suffixes kind), List.findSome?_map] at h
  obtain ⟨⟨suffix, i⟩, hi, h, hsuffix⟩ := exists_least_of_findSome? Prod.snd (pairwise_zipIdx _) h
  have hfile : l.isFile (layout.pathFor path form suffix) = true := by
    by_contra hno
    simp [hitWith?, hno] at h
  simp only [Function.comp_apply, hitWith?, hfile, if_true, Option.some.injEq] at h
  subst h
  obtain ⟨token, hslot⟩ := mem_openLayers.1 hl
  refine ⟨⟨form, kind, j, i⟩, rfl, ⟨l, token, suffix, hslot, List.mem_zipIdx_iff_getElem?.1 hi, rfl, hfile⟩, ?_⟩
  rintro ⟨form', kind', j', i'⟩ p' hholds
  obtain ⟨hforms, hkinds, l', hl', hlayers, suffix', hi', hsuffixes⟩ := hholds.isSome
  refine Candidate.rank_le (hform form' (Form.mem_all _) hforms) ?_ ?_ ?_
  · rintro rfl
    exact hkind kind' (Kind.mem_all _) hkinds
  · rintro rfl rfl
    exact hlayer _ hl' hlayers
  · rintro rfl rfl rfl
    cases openLayers_unique hl hl'
    exact hsuffix _ hi' hsuffixes

/-- **The search in a root finds nothing** where the root does not hold the name. -/
theorem find?_none : r.find? layout path = none ↔ ∀ c p, ¬ r.Holds layout path c p := by
  constructor
  · intro hnone c p h
    have hsome : (r.find? layout path).isSome := List.findSome?_isSome_iff.2 ⟨c.form, Form.mem_all _, h.isSome.1⟩
    simp [hnone] at hsome
  · intro hno
    rcases hfind : r.find? layout path with _ | hit
    · rfl
    · obtain ⟨c, -, hleast⟩ := find?_least hfind
      exact absurd hleast.holds (hno c hit.path)

/-! ## (3) The first root that ends the search -/

/-- A root ends the search for a name if it has a layer that is not open, or holds the name. -/
def Ends (r : Root) (layout : Layout) (path : String) : Prop :=
  (∃ name reason, .broken name reason ∈ r.slots) ∨ ∃ c p, r.Holds layout path c p

/-- A root with a layer that is not open is refused by the first one. -/
theorem requireOpen_cases (r : Root) : r.requireOpen = .ok () ∧ (∀ name reason, .broken name reason ∉ r.slots) ∨
    ∃ before name reason after, r.slots = before ++ .broken name reason :: after ∧
      (∀ s ∈ before, ∃ l token, s = .opened l token) ∧ r.requireOpen = .error (r.notOpen name reason) := by
  unfold requireOpen
  split
  · next name reason hfirst =>
    obtain ⟨before, s, after, hslots, hs, hbefore⟩ := List.findSome?_eq_some_iff.1 hfirst
    cases s with
    | opened => cases hs
    | broken =>
      cases hs
      refine .inr ⟨before, name, reason, after, hslots, fun s hs => ?_, rfl⟩
      cases s with
      | opened l token => exact ⟨l, token, rfl⟩
      | broken => cases hbefore _ hs
  · next hnone =>
    exact .inl ⟨rfl, fun name reason hmem => nomatch List.findSome?_eq_none_iff.1 hnone _ hmem⟩

end Root

namespace Importer

variable {m : Importer} {name : String} {s s' : ImporterState}

/-- What resolving a name comes to at a root that holds it. -/
def resolveAt (layout : Layout) (name : String) (r : Root) (k : Nat) (hit : Hit) : Importing FoundUnit := do
  let artifact ← .onRoot k (hit.realize r layout name)
  .ofExcept (hit.unit r k name artifact)

/-- `m.First name r k`: this is the first root that ends the search, and its position. -/
structure First (m : Importer) (name : String) (r : Root) (k : Nat) : Prop where
  /-- Its position. -/
  root : m.roots[k]? = some r
  /-- It ends the search. -/
  ends : r.Ends m.layout (UnitName.path name)
  /-- No root before it does. -/
  least : ∀ j < k, ∀ r', m.roots[j]? = some r' → ¬ r'.Ends m.layout (UnitName.path name)

/-- There is but one first root. -/
theorem First.unique {r r' : Root} {k k' : Nat} (h : m.First name r k) (h' : m.First name r' k') : k = k' ∧ r = r' := by
  have hk : k = k' := by
    rcases lt_trichotomy k k' with hlt | heq | hgt
    · exact absurd h.ends (h'.least k hlt r h.root)
    · exact heq
    · exact absurd h'.ends (h.least k' hgt r' h'.root)
  subst hk
  exact ⟨rfl, Option.some.inj (h.root.symm.trans h'.root)⟩

/-- **The search among the roots** ends at the first root that ends it, or there is none. -/
theorem resolveIn_cases (layout : Layout) (name : String) (s : ImporterState) (roots : List (Root × Nat)) :
    (∀ p ∈ roots, ¬ p.1.Ends layout (UnitName.path name)) ∧
        (resolveIn layout name roots).outcome s = (.error (.notFound name), s) ∨
      ∃ before r k after, roots = before ++ (r, k) :: after ∧ (∀ p ∈ before, ¬ p.1.Ends layout (UnitName.path name)) ∧
        ((∃ e, r.requireOpen = .error e ∧ (resolveIn layout name roots).outcome s = (.error e, s)) ∨
          ∃ hit, r.requireOpen = .ok () ∧ r.find? layout (UnitName.path name) = some hit ∧
            (resolveIn layout name roots).outcome s = (resolveAt layout name r k hit).outcome s) := by
  induction roots with
  | nil => exact .inl ⟨by simp, rfl⟩
  | cons p roots ih =>
    obtain ⟨r, k⟩ := p
    rcases hopen : r.requireOpen with e | ⟨⟨⟩⟩
    · refine .inr ⟨[], r, k, roots, rfl, by simp, .inl ⟨e, hopen, ?_⟩⟩
      rw [resolveIn, hopen]
      exact outcome_bind_error (outcome_ofExcept _ _) _
    -- A root that is open and has no hit is passed.
    rcases hfind : r.find? layout (UnitName.path name) with _ | hit
    · have hrest : (resolveIn layout name ((r, k) :: roots)).outcome s = (resolveIn layout name roots).outcome s := by
        rw [resolveIn, hopen, outcome_bind_ok (outcome_ofExcept _ _), hfind]
      have hr : ¬ r.Ends layout (UnitName.path name) := by
        rintro (⟨slot, reason, hmem⟩ | ⟨c, p, hholds⟩)
        · rcases r.requireOpen_cases with ⟨-, hno⟩ | ⟨_, _, _, _, -, -, herror⟩
          · exact hno slot reason hmem
          · rw [hopen] at herror
            cases herror
        · exact Root.find?_none.1 hfind c p hholds
      rw [hrest]
      rcases ih with ⟨hnone, hout⟩ | ⟨before, r', k', after, rfl, hbefore, hout⟩
      · exact .inl ⟨List.forall_mem_cons.2 ⟨hr, hnone⟩, hout⟩
      · exact .inr ⟨(r, k) :: before, r', k', after, rfl, List.forall_mem_cons.2 ⟨hr, hbefore⟩, hout⟩
    · refine .inr ⟨[], r, k, roots, rfl, by simp, .inr ⟨hit, hopen, hfind, ?_⟩⟩
      rw [resolveIn, hopen, outcome_bind_ok (outcome_ofExcept _ _), hfind]
      rfl

/-- Where the search among the roots of an importer ends is the first root that ends it. -/
theorem First.of_indexed {before after : List (Root × Nat)} {r : Root} {k : Nat}
    (hroots : m.indexed = before ++ (r, k) :: after)
    (hbefore : ∀ p ∈ before, ¬ p.1.Ends m.layout (UnitName.path name)) (hends : r.Ends m.layout (UnitName.path name)) :
    m.First name r k := by
  have hpos : ∀ (j : Nat) (p : Root × Nat), m.indexed[j]? = some p → p.2 = j ∧ m.roots[j]? = some p.1 := by
    intro j p hp
    rw [indexed, List.getElem?_zipIdx, Option.map_eq_some_iff] at hp
    obtain ⟨r', hr', rfl⟩ := hp
    exact ⟨by simp, hr'⟩
  have hk : m.indexed[before.length]? = some (r, k) := by simp [hroots]
  obtain ⟨hlength, hroot⟩ := hpos _ _ hk
  dsimp only at hlength hroot
  subst hlength
  refine ⟨hroot, hends, fun j hj r' hr' hends' => ?_⟩
  have hj' : m.indexed[j]? = some (r', j) := by simp [indexed, List.getElem?_zipIdx, hr']
  rw [hroots, List.getElem?_append_left hj] at hj'
  exact hbefore _ (List.mem_of_getElem? hj') hends'

/-! ## (4) The verdict -/

/-- `m.Verdict name s out`: in state `s`, this is what a name resolves to. -/
inductive Verdict (m : Importer) (name : String) (s : ImporterState) : Except ImportFailure FoundUnit → Prop where
  /-- The name cannot be looked up. -/
  | invalid (hname : UnitName.isValid name = false) : Verdict m name s (.error (.notFound name))
  /-- No root ends the search. -/
  | absent (hname : UnitName.isValid name = true)
      (hnone : ∀ r ∈ m.roots, ¬ r.Ends m.layout (UnitName.path name)) : Verdict m name s (.error (.notFound name))
  /-- The first root that ends the search has a layer that is not open; the first of these is named. -/
  | broken {r : Root} {k : Nat} {before after : List Slot} {slot : String} {reason : BrokenReason}
      (hname : UnitName.isValid name = true) (hfirst : m.First name r k)
      (hslots : r.slots = before ++ .broken slot reason :: after)
      (hbefore : ∀ s ∈ before, ∃ l token, s = .opened l token) :
      Verdict m name s (.error (.corruptArchive r.dir slot reason))
  /-- Else the first root holds the name, but what the unit in the least place asks for cannot be made. -/
  | refused {r : Root} {k : Nat} {c : Candidate} {p : String} {e : ImportFailure} {rs : RootState}
      (hname : UnitName.isValid name = true) (hfirst : m.First name r k)
      (hopen : ∀ slot reason, .broken slot reason ∉ r.slots) (hleast : r.Least m.layout (UnitName.path name) c p)
      (hraised : ((⟨c.form, c.layer, c.kind, p⟩ : Hit).realize r m.layout name).outcome (s.root k) = (.error e, rs))
      (hfound : e.Found) : Verdict m name s (.error e)
  /-- Else it is the unit in the least place, with an artifact exactly if it is source of a package whose source has
  to stand on disk. -/
  | found {r : Root} {k : Nat} {c : Candidate} {p : String} {l : Layer} {token : Option String}
      (hname : UnitName.isValid name = true) (hfirst : m.First name r k)
      (hopen : ∀ slot reason, .broken slot reason ∉ r.slots) (hleast : r.Least m.layout (UnitName.path name) c p)
      (hslot : r.slots[c.layer]? = some (.opened l token)) :
      Verdict m name s (.ok ⟨name, c.kind, c.form, k, r.dir, c.layer, l.name, p,
        if c.kind = .source ∧ r.requiresSource (UnitName.topLevel name) then
          some (DiskPath.join r.dir (ArchivePath.normalize p)) else none⟩)

/-- The unit that a name resolves to does not depend on the state. -/
theorem Verdict.unit_unique {u u' : FoundUnit} (h : m.Verdict name s (.ok u)) (h' : m.Verdict name s' (.ok u')) :
    u = u' := by
  cases h with
  | found _ hfirst _ hleast hslot =>
    cases h' with
    | found _ hfirst' _ hleast' hslot' =>
      obtain ⟨rfl, rfl⟩ := hfirst.unique hfirst'
      obtain ⟨rfl, rfl⟩ := hleast.unique hleast'
      rw [hslot] at hslot'
      cases hslot'
      rfl

end Importer

/-- The artifact that comes with a hit: where it stands, if it was to be made. -/
theorem Hit.artifact_of_realize {h : Hit} {r : Root} {layout : Layout} {name : String} {artifact : Option String}
    {s s' : RootState} (hok : (h.realize r layout name).outcome s = (.ok artifact, s')) :
    artifact = if h.kind = .source ∧ r.requiresSource (UnitName.topLevel name) then
      some (DiskPath.join r.dir (ArchivePath.normalize h.path)) else none := by
  have hrest : ∀ s₁ : RootState, (h.extractSource r name).outcome s₁ = (.ok artifact, s') →
      artifact = if h.kind = .source ∧ r.requiresSource (UnitName.topLevel name) then
        some (DiskPath.join r.dir (ArchivePath.normalize h.path)) else none := by
    intro s₁ hout
    obtain ⟨hrequired, dest, l, rfl, -, hmake⟩ | ⟨hrequired, rfl, -⟩ := cases_of_extractSource hout
    · obtain ⟨_, _, _, htarget⟩ := Extraction.exists_target_of_ok hmake
      rw [if_pos hrequired, htarget.dest_eq]
    · rw [if_neg hrequired]
  rw [realize_eq] at hok
  split at hok
  · obtain ⟨count, s₁, -, hok⟩ := exists_of_outcome_bind_ok hok
    exact hrest s₁ hok
  · exact hrest s hok

namespace Importer

variable {m : Importer} {name : String} {s : ImporterState}

/-- What resolving comes to at a hit in the first root. -/
theorem resolveAt_verdict (hsound : ∀ r ∈ m.roots, ∀ l ∈ r.openLayers, l.2.Sound) {r : Root} {k : Nat} {hit : Hit}
    (hname : UnitName.isValid name = true) (hfirst : m.First name r k)
    (hopen : ∀ slot reason, .broken slot reason ∉ r.slots)
    (hhit : r.find? m.layout (UnitName.path name) = some hit) :
    m.Verdict name s ((resolveAt m.layout name r k hit).outcome s).1 := by
  obtain ⟨c, hc, hleast⟩ := Root.find?_least hhit
  obtain ⟨l, token, suffix, hslot, -, -, hfile⟩ := hleast.holds
  have hlayer : (hit.layer, l) ∈ r.openLayers := by
    rw [hc]
    exact Root.mem_openLayers.2 ⟨token, hslot⟩
  rcases hrealize : (hit.realize r m.layout name).outcome (s.root k) with ⟨e | artifact, rs⟩
  · have hout : (Importing.onRoot k (hit.realize r m.layout name)).outcome s = (.error e, s.withRoot k rs) := by
      rw [Importing.onRoot, outcome_onto, hrealize]
    rw [resolveAt, outcome_bind_error hout]
    have hr := List.mem_of_getElem? hfirst.root
    have hfound := Hit.raises_realize_found (hsound r hr) hlayer hfile m.layout name _ _ _
      hrealize
    rw [hc] at hrealize
    exact .refused hname hfirst hopen hleast hrealize hfound
  · have hout : (Importing.onRoot k (hit.realize r m.layout name)).outcome s = (.ok artifact, s.withRoot k rs) := by
      rw [Importing.onRoot, outcome_onto, hrealize]
    rw [resolveAt, outcome_bind_ok hout, outcome_ofExcept, Hit.unit, Root.layerAt_eq_ok.2 hlayer,
      Hit.artifact_of_realize hrealize, hc]
    exact .found hname hfirst hopen hleast hslot

/-- **Resolving is the documented precedence**, whatever was done before. Layers being sound, as all are that were
opened, a name that cannot be looked up is not found. Else let the first root end the search that has a layer that is
not open, or holds the name in some place. Without such a root the name is not found. If the root has a layer that is
not open, the first one of these is named. Else the unit is that in the least place of the root, by form, kind, layer
and suffix, with an artifact exactly if it is source of a package whose source has to stand on disk; or what it asks for
cannot be made, and the failure is never that something was not found. So in all states in which the name resolves to a
unit, it is the same unit. -/
theorem resolve_verdict (hsound : ∀ r ∈ m.roots, ∀ l ∈ r.openLayers, l.2.Sound) (name : String) :
    (∀ s, m.Verdict name s ((m.resolve name).outcome s).1) ∧
      ∀ s s' u u', ((m.resolve name).outcome s).1 = .ok u → ((m.resolve name).outcome s').1 = .ok u' → u = u' := by
  have hverdict : ∀ s, m.Verdict name s ((m.resolve name).outcome s).1 := by
    intro s
    rw [resolve]
    by_cases hname : UnitName.isValid name = true
    · rw [if_pos hname]
      -- The search passes roots that end nothing, and stops at the first that is broken or has a hit.
      rcases resolveIn_cases m.layout name s m.indexed with ⟨hnone, hout⟩ | ⟨before, r, k, after, hroots, hbefore, hout⟩
      · rw [hout]
        refine .absent hname fun r hr => ?_
        obtain ⟨k, hk⟩ := List.getElem?_of_mem hr
        exact hnone (r, k) (mem_indexed.2 hk)
      · rcases hout with ⟨e, hopen, hout⟩ | ⟨hit, hopen, hhit, hout⟩
        · rw [hout]
          rcases r.requireOpen_cases with ⟨hok, -⟩ | ⟨first, slot, reason, rest, hslots, hopened, herror⟩
          · rw [hopen] at hok
            cases hok
          · rw [hopen] at herror
            cases herror
            have hends : r.Ends m.layout (UnitName.path name) := .inl ⟨slot, reason, by simp [hslots]⟩
            exact .broken hname (.of_indexed hroots hbefore hends) hslots hopened
        · rw [hout]
          obtain ⟨c, -, hleast⟩ := Root.find?_least hhit
          have hfirst : m.First name r k := .of_indexed hroots hbefore (.inr ⟨c, _, hleast.holds⟩)
          rcases r.requireOpen_cases with ⟨-, hno⟩ | ⟨_, _, _, _, -, -, herror⟩
          · exact resolveAt_verdict hsound hname hfirst hno hhit
          · rw [hopen] at herror
            cases herror
    · rw [if_neg hname]
      exact .invalid (by simpa using hname)
  refine ⟨hverdict, fun s s' u u' hu hu' => ?_⟩
  -- Units are told apart from nothing by the state: either verdict names the one of the least place.
  have h := hverdict s
  have h' := hverdict s'
  rw [hu] at h
  rw [hu'] at h'
  exact h.unit_unique h'

/-- An importer of two roots, the second one of two layers: a module in the first, a package in the second. -/
def moduleThenPackage : Importer :=
  .new [⟨"/x", [.opened (.ofFiles "a" 1 [("m.txt", .empty)]) none], [], 1⟩,
      ⟨"/y", [.opened (.ofFiles "a" 1 [("m.pyc", .empty)]) none,
        .opened (.ofFiles "b" 1 [("m/__init__.py", .empty)]) none], ["m"], 1⟩]
    Layout.standard fun _ _ => .ok ()

/-- The package hides the module, though its kind and its layer come later; its source stands on disk. -/
theorem moduleThenPackage_verdict : (∀ r ∈ moduleThenPackage.roots, ∀ l ∈ r.openLayers, l.2.Sound) ∧
    ∀ s, (∀ u, ((moduleThenPackage.resolve "m").outcome s).1 = .ok u →
        u = ⟨"m", .source, .package, 1, "/y", 1, "b", "m/__init__.py", some "/y/m/__init__.py"⟩) ∧
      moduleThenPackage.Verdict "m" s ((moduleThenPackage.resolve "m").outcome s).1 := by
  have hsound : ∀ r ∈ moduleThenPackage.roots, ∀ l ∈ r.openLayers, l.2.Sound := by decide +kernel
  obtain ⟨hverdict, hsame⟩ := resolve_verdict hsound "m"
  refine ⟨hsound, fun s => ⟨fun u hu => hsame s (.ofWorkspace (.ofTree .empty)) u _ hu ?_, hverdict s⟩⟩
  decide +kernel

end Importer

end LayeredBundles
