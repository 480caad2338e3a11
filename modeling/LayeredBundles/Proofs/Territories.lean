import LayeredBundles.Proofs.Enclosure
import LayeredBundles.Proofs.Recall
import Mathlib.Data.List.Pairwise

/-! # Roots that stand apart

What an importer does for one root it does on the territory of that root: at or below its extraction directory and its
lock file. The check of settings sees to it that no two roots share a directory, and of no more. Where besides no
directory stands on the territory of another root, all territories are apart.

* **`Territory`** — what is at or below a directory or its lock file; **`not_territory_of_territory`** — territories are
  apart if neither directory is on that of the other;
* **`Settings.Spread`** — no directory is on the territory of another one; **`Importer.apart_of_settings`** — then roots
  of settings that pass their check stand apart;
* **`Importer.Act`** — something done for single roots; **`Act.IsFor`** are the roots it is done for;
* **`Importer.Apart.leaves_territory`** — what is done for other roots leaves the territory of a root as it is. -/

namespace LayeredBundles

open DiskPath FileTree Fallible

/-! ## (1) Territories -/

/-- A path that tells its place wherever relative paths begin: it is absolute and steps down only. -/
structure DiskPath.IsStraight (path : String) : Prop where
  /-- It is absolute. -/
  absolute : isAbsolute path = true
  /-- It steps down only. -/
  names : ∀ s ∈ steps path, s ≠ ".."

/-- A straight path has the place of its steps, wherever it is seen from. -/
theorem DiskPath.IsStraight.placeFrom_eq {path : String} (h : IsStraight path) (base : Place) :
    placeFrom base path = steps path := by
  rw [placeFrom, startFrom, if_pos h.absolute, walk_names h.names, List.nil_append]

/-- The territory of a directory: what is at or below it or its lock file. -/
def Territory (d v : Place) : Prop := d <+: v ∨ Lock.place d <+: v

namespace Lock

variable [Charset]

/-- The lock file stands beside the directory, under a name made from its own. -/
theorem place_concat (q : Place) (name : String) : place (q ++ [name]) = q ++ [fileName name] := by
  rw [place, List.dropLast_concat, List.getLast?_concat, Option.getD_some]

/-- `Alike d d'`: the directories stand in the same one, and their names are shown as the same text. -/
def Alike (d d' : Place) : Prop :=
  d.dropLast = d'.dropLast ∧ d.getLast?.map Charset.text = d'.getLast?.map Charset.text

/-- Directories that look alike are the same if their names are text. -/
theorem Alike.eq {d d' : Place} (h : Alike d d') (htext : ∀ name ∈ d.getLast?, Charset.IsText name)
    (htext' : ∀ name ∈ d'.getLast?, Charset.IsText name) : d = d' := by
  obtain ⟨hfront, hlast⟩ := h
  rcases List.eq_nil_or_concat d with rfl | ⟨q, name, rfl⟩ <;>
    rcases List.eq_nil_or_concat d' with rfl | ⟨q', name', rfl⟩
  · rfl
  · simp at hlast
  · simp at hlast
  · simp only [List.concat_eq_append, List.dropLast_concat, List.getLast?_concat, Option.map_some, Option.some_inj,
      Option.mem_some_iff, forall_eq'] at hfront hlast htext htext' ⊢
    have htext : Charset.spell (Charset.text name) = name := htext
    have htext' : Charset.spell (Charset.text name') = name' := htext'
    rw [hfront, ← htext, hlast, htext']

variable [LawfulCharset]

/-- The path of a lock file is straight if that of the directory is. -/
theorem straight_path {dir lock : String} (h : IsStraight dir) (hlock : path dir = .ok lock) :
    IsStraight lock ∧ steps lock = place (steps dir) ∧ steps dir ≠ [] := by
  obtain ⟨xs, name, hname, hsteps, hlocksteps, habs, -⟩ := exists_of_path hlock
  refine ⟨⟨habs.trans h.absolute, fun s hs => ?_⟩, by rw [hlocksteps, hsteps, place_concat], by simp [hsteps]⟩
  rw [hlocksteps] at hs
  rcases List.mem_append.1 hs with hs | hs
  · exact h.names s (hsteps ▸ List.mem_append_left _ hs)
  · exact List.mem_singleton.1 hs ▸ (isName_fileName hname.slash).up

/-- Lock files have one name if the names of their directories are shown as one text. -/
theorem fileName_eq_iff {a b : String} : fileName a = fileName b ↔ Charset.text a = Charset.text b := by
  rw [fileName, fileName, Charset.spell_inj]
  refine ⟨fun h => ?_, fun h => by rw [h]⟩
  have hlist := congrArg String.toList h
  rw [String.toList_append, String.toList_append, String.toList_append, String.toList_append] at hlist
  exact String.toList_inj.1 (List.append_cancel_left (List.append_cancel_right hlist))

/-- **Directories have one lock file if they look alike.** -/
theorem place_eq_iff {d d' : Place} (hd : d ≠ []) (hd' : d' ≠ []) : place d = place d' ↔ Alike d d' := by
  obtain ⟨q, name, rfl⟩ := (List.eq_nil_or_concat d).resolve_left hd
  obtain ⟨q', name', rfl⟩ := (List.eq_nil_or_concat d').resolve_left hd'
  rw [List.concat_eq_append, List.concat_eq_append, place_concat, place_concat, Alike, List.dropLast_concat,
    List.dropLast_concat, List.getLast?_concat, List.getLast?_concat, Option.map_some, Option.map_some,
    Option.some_inj, ← fileName_eq_iff]
  exact ⟨fun h => (List.append_inj' h rfl).imp_right fun h => (List.cons.inj h).1, fun ⟨h, h'⟩ => by rw [h, h']⟩

end Lock

/-- Directories with one lock file are the same, where paths are text. -/
theorem Lock.place_inj {d d' : Place} (hd : d ≠ []) (hd' : d' ≠ []) (h : place d = place d') : d = d' :=
  ((place_eq_iff hd hd').1 h).eq (fun _ _ => Charset.isText_utf8 _) fun _ _ => Charset.isText_utf8 _

/-- The lock file of a directory stands at its place, as its path tells it. -/
theorem DiskPath.IsStraight.placeFrom_lock {path lock : String} (h : IsStraight path)
    (hlock : Lock.path path = .ok lock) (base : Place) : placeFrom base lock = Lock.place (steps path) := by
  obtain ⟨hstraight, hsteps, -⟩ := Lock.straight_path h hlock
  rw [hstraight.placeFrom_eq, hsteps]

section Territory

variable {d d' v u : Place}

/-- A directory is on its own territory. -/
theorem territory_self (d : Place) : Territory d d := .inl (List.prefix_refl d)

/-- So is its lock file. -/
theorem territory_lock (d : Place) : Territory d (Lock.place d) := .inr (List.prefix_refl _)

/-- What is below something on the territory is on the territory. -/
theorem Territory.of_prefix (h : Territory d v) (hv : v <+: u) : Territory d u :=
  h.imp (fun hle => hle.trans hv) fun hle => hle.trans hv

/-- Neither a directory nor its lock file stands above another directory or lock file, if neither directory is on the
territory of the other. -/
theorem not_prefix_of_not_territory (h : ¬ Territory d d') (h' : ¬ Territory d' d) (hu : u = d ∨ u = Lock.place d)
    (hv : v = d' ∨ v = Lock.place d') : ¬ u <+: v := by
  intro hle
  have hterritory : ∀ {x}, u <+: x → Territory d x := by
    intro x hx
    rcases hu with rfl | rfl
    · exact .inl hx
    · exact .inr hx
  have hd : d ≠ [] := by
    rintro rfl
    exact h (.inl List.nil_prefix)
  have hd' : d' ≠ [] := by
    rintro rfl
    exact h' (.inl List.nil_prefix)
  rcases hv with rfl | rfl
  · exact h (hterritory hle)
  · obtain ⟨q, name, rfl⟩ := (List.eq_nil_or_concat d').resolve_left hd'
    rw [List.concat_eq_append] at *
    rw [Lock.place_concat] at hle
    -- What stands above a lock file is that file, or stands above the directory too.
    rcases List.prefix_concat_iff.1 hle with heq | hfront
    · rw [← Lock.place_concat] at heq
      rcases hu with rfl | rfl
      · exact h' (heq ▸ territory_lock _)
      · exact h (Lock.place_inj hd hd' heq ▸ territory_self _)
    · exact h (hterritory (hfront.trans (List.prefix_append _ _)))

/-- **Territories are apart** if neither directory is on the territory of the other. -/
theorem not_territory_of_territory (h : ¬ Territory d d') (h' : ¬ Territory d' d) (hv : Territory d' v) :
    ¬ Territory d v := by
  intro hterritory
  have happart : ∀ u u', (u = d ∨ u = Lock.place d) → (u' = d' ∨ u' = Lock.place d') → u <+: v → u' <+: v → False := by
    intro u u' hu hu' hle hle'
    rcases List.prefix_or_prefix_of_prefix hle hle' with hup | hup
    · exact not_prefix_of_not_territory h h' hu hu' hup
    · exact not_prefix_of_not_territory h' h hu' hu hup
  rcases hterritory with hle | hle <;> rcases hv with hle' | hle'
  · exact happart _ _ (.inl rfl) (.inl rfl) hle hle'
  · exact happart _ _ (.inl rfl) (.inr rfl) hle hle'
  · exact happart _ _ (.inr rfl) (.inl rfl) hle hle'
  · exact happart _ _ (.inr rfl) (.inr rfl) hle hle'

end Territory

/-! ## (2) Settings -/

namespace Settings

variable {c : Settings}

/-- All extraction directories are told by their paths alone. -/
def Straight (c : Settings) : Prop := ∀ r ∈ c.roots, IsStraight r.extractDir

/-- No directory is strictly below that of another root, nor is it the lock file of another one or below that. -/
def Spread (c : Settings) : Prop :=
  ∀ r ∈ c.roots, ∀ r' ∈ c.roots, isBelow (steps r.extractDir) (steps r'.extractDir) = false ∧
    ¬ Lock.place (steps r.extractDir) <+: steps r'.extractDir

/-- Roots that are checked have other directories than those before them. -/
theorem not_same_of_checkRoots {rs : List RootSettings} {seen : List String} (h : checkRoots seen rs = .ok ()) :
    (∀ r ∈ rs, ∀ dir ∈ seen, same r.extractDir dir = false) ∧
      rs.Pairwise fun r r' => same r'.extractDir r.extractDir = false := by
  induction rs generalizing seen with
  | nil => exact ⟨fun r hr => absurd hr List.not_mem_nil, .nil⟩
  | cons r rs ih =>
    unfold checkRoots at h
    split at h
    · cases h
    split at h
    · cases h
    next hseen =>
    obtain ⟨_, -, hrest⟩ := exists_of_bind_eq_ok h
    obtain ⟨hrest, hpairs⟩ := ih hrest
    constructor
    · intro r' hr' dir hdir
      rcases List.mem_cons.1 hr' with rfl | hr'
      · rw [List.any_eq_true, not_exists] at hseen
        exact Bool.eq_false_iff.2 fun hsame => hseen dir ⟨hdir, hsame⟩
      · exact hrest r' hr' dir (List.mem_cons_of_mem _ hdir)
    · exact List.pairwise_cons.2 ⟨fun r' hr' => hrest r' hr' _ List.mem_cons_self, hpairs⟩

/-- **No two roots share a directory**, if the check of the settings ends well. -/
theorem not_same_of_check (h : c.check = .ok ()) :
    c.roots.Pairwise fun r r' => same r'.extractDir r.extractDir = false := by
  unfold check at h
  split at h
  · cases h
  split at h
  · cases h
  obtain ⟨_, -, h⟩ := exists_of_bind_eq_ok h
  obtain ⟨_, -, h⟩ := exists_of_bind_eq_ok h
  exact (not_same_of_checkRoots h).2

end Settings

/-- Straight paths with the same steps are the same. -/
theorem DiskPath.IsStraight.same_of_steps {p q : String} (hp : IsStraight p) (hq : IsStraight q)
    (h : steps p = steps q) : same p q = true := by
  unfold steps at h
  rw [same, components, components, if_pos hp.absolute, if_pos hq.absolute, h, decide_eq_true_eq]

/-- What each round of a loop that ends well has made of its value. -/
theorem Fallible.map_eq_of_mapM {σ ε α β γ : Type} {f : γ → Fallible σ ε α} {g : α → β} {k : γ → β}
    (hround : ∀ x s y s', (f x).outcome s = (.ok y, s') → g y = k x) {xs : List γ} {ys : List α} {s s' : σ}
    (h : (xs.mapM f).outcome s = (.ok ys, s')) : ys.map g = xs.map k := by
  induction xs generalizing s ys with
  | nil =>
    cases h
    rfl
  | cons x xs ih =>
    rw [List.mapM_cons] at h
    obtain ⟨y, s₁, hfirst, h⟩ := exists_of_outcome_bind_ok h
    obtain ⟨ys', s₂, hrest, h⟩ := exists_of_outcome_bind_ok h
    cases h
    rw [List.map_cons, List.map_cons, hround x s y s₁ hfirst, ih hrest]

namespace Importer

variable {m : Importer} {c : Settings} {host : Host} {w w' : Workspace}

/-- An importer of settings has passed their check, and its roots have their directories. -/
theorem dirs_of_settings (h : (ofSettings c host).outcome w = (.ok m, w')) :
    c.check = .ok () ∧ m.roots.map Root.dir = c.roots.map RootSettings.extractDir := by
  unfold ofSettings at h
  obtain ⟨⟨⟩, w₁, hcheck, h⟩ := exists_of_outcome_bind_ok h
  obtain ⟨roots, w₂, hroots, h⟩ := exists_of_outcome_bind_ok h
  cases h
  rw [outcome_ofExcept, Prod.mk.injEq] at hcheck
  refine ⟨hcheck.1, Fallible.map_eq_of_mapM (fun r s r' s' hopen => ?_) hroots⟩
  unfold openRoot at hopen
  obtain ⟨slots, s₁, -, hopen⟩ := exists_of_outcome_bind_ok hopen
  cases hopen
  rfl

/-- Roots that stand apart: their directories are told by their paths, and none is on the territory of another one. -/
structure Apart (m : Importer) : Prop where
  /-- The paths. -/
  straight : ∀ r ∈ m.roots, IsStraight r.dir
  /-- The territories. -/
  territories : m.roots.Pairwise fun r r' =>
    ¬ Territory (steps r.dir) (steps r'.dir) ∧ ¬ Territory (steps r'.dir) (steps r.dir)

/-- **Roots of settings stand apart** if the settings pass their check and no directory is on the territory of another
one. -/
theorem apart_of_settings (h : (ofSettings c host).outcome w = (.ok m, w')) (hstraight : c.Straight)
    (hspread : c.Spread) : m.Apart := by
  obtain ⟨hcheck, hdirs⟩ := dirs_of_settings h
  have hmem : ∀ r ∈ m.roots, ∃ rs ∈ c.roots, rs.extractDir = r.dir := fun r hr =>
    List.mem_map.1 (hdirs ▸ List.mem_map_of_mem hr)
  refine ⟨fun r hr => ?_, ?_⟩
  · obtain ⟨rs, hrs, hdir⟩ := hmem r hr
    exact hdir ▸ hstraight rs hrs
  · have hpairs : (c.roots.map RootSettings.extractDir).Pairwise fun a b =>
        ¬ Territory (steps a) (steps b) ∧ ¬ Territory (steps b) (steps a) := by
      refine List.pairwise_map.2 ((Settings.not_same_of_check hcheck).imp_of_mem fun {r r'} hr hr' hsame => ?_)
      -- They have other steps, so that one above the other is strictly above it.
      have hne : steps r'.extractDir ≠ steps r.extractDir := fun heq =>
        Bool.false_ne_true (hsame.symm.trans ((hstraight r' hr').same_of_steps (hstraight r hr) heq))
      have hterritory : ∀ a ∈ c.roots, ∀ b ∈ c.roots, steps b.extractDir ≠ steps a.extractDir →
          ¬ Territory (steps a.extractDir) (steps b.extractDir) := by
        intro a ha b hb hne hterritory
        obtain ⟨hbelow, hlock⟩ := hspread a ha b hb
        rcases hterritory with hle | hle
        · exact Bool.false_ne_true (hbelow.symm.trans (isBelow_iff.2 ⟨hle, hne⟩))
        · exact hlock hle
      exact ⟨hterritory r hr r' hr' hne, hterritory r' hr' r hr hne.symm⟩
    rw [← hdirs] at hpairs
    exact List.pairwise_map.1 hpairs

namespace Apart

variable {r r' : Root}

/-- No directory stands on the territory of another root. -/
theorem not_territory (h : m.Apart) (hr : r ∈ m.roots) (hr' : r' ∈ m.roots) (hne : r ≠ r') :
    ¬ Territory (steps r.dir) (steps r'.dir) := by
  have hsymm : Std.Symm fun r r' : Root =>
      ¬ Territory (steps r.dir) (steps r'.dir) ∧ ¬ Territory (steps r'.dir) (steps r.dir) :=
    ⟨fun _ _ hpair => hpair.symm⟩
  exact (h.territories.forall hr hr' hne).1

/-- A root stands at one position only. -/
theorem position_eq (h : m.Apart) {i k : Nat} (hi : m.roots[i]? = some r) (hk : m.roots[k]? = some r) : i = k := by
  have hnodup : m.roots.Nodup := by
    refine h.territories.imp ?_
    rintro r _ hpair rfl
    exact hpair.1 (territory_self _)
  obtain ⟨hlt, -⟩ := List.getElem?_eq_some_iff.1 hi
  exact (List.getElem?_inj hlt hnodup).1 (hi.trans hk.symm)

end Apart

end Importer

/-! ## (3) Stores -/

namespace DiskPath

variable {base v : Place} {path : String}

/-- What a path stands below that steps down only, is above its place. -/
theorem Above.le (h : Above base path v) (hnames : ∀ s ∈ steps path, s ≠ "..") : v <+: placeFrom base path := by
  obtain ⟨xs, hxs, rfl⟩ := h
  rw [placeFrom, walk_names hnames, walk_names fun s hs => hnames s (hxs.subset hs)]
  exact (List.prefix_append_right_inj _).2 hxs

end DiskPath

namespace RecordStore

variable {store : RecordStore} {m : Importer} {base v : Place} {process : Nat}

/-- `store.Beside m base process`: no file of a store is on the territory of a root. -/
structure Beside (store : RecordStore) (m : Importer) (base : Place) (process : Nat) : Prop where
  /-- The path steps down only. -/
  direct : ∀ path, store = .file path → IsDirect path
  /-- The file, and the one under which it is written anew. -/
  files : ∀ v, Files (store.placeFrom? base) process v → ∀ r ∈ m.roots, ¬ Territory (steps r.dir) v

/-- The places of the files that a store writes, as their paths tell them. -/
theorem Beside.files_of_writes (h : store.Beside m base process) (hv : store.Writes base process v) :
    Files (store.placeFrom? base) process v := by
  obtain ⟨path, name, rfl, hname, rfl | rfl⟩ := hv
  · exact ⟨_, rfl, .inl rfl⟩
  · refine ⟨_, rfl, .inr ?_⟩
    have hdirect := h.direct path rfl
    obtain ⟨hisName, xs, hsteps⟩ := fileName?_eq_some hname
    obtain ⟨-, htemporary, hbeside, habs, -⟩ := temporary_beside hname hsteps hisName.up process
    have hnames : ∀ s ∈ xs ++ [temporaryName name process], s ≠ ".." := by
      intro s hs
      rcases List.mem_append.1 hs with hs | hs
      · exact hdirect.names s (hsteps ▸ List.mem_append_left _ hs)
      · exact List.mem_singleton.1 hs ▸ htemporary.up
    rw [placeFrom, hbeside, walk_names hnames, hdirect.placeFrom_eq, hsteps, startFrom, startFrom, habs,
      ← List.append_assoc, ← List.append_assoc, temporaryPlace, List.dropLast_concat, List.getLast?_concat,
      Option.getD_some]

/-- What a store stands in is above its file. -/
theorem Beside.exists_of_standsIn (h : store.Beside m base process) (hv : store.StandsIn base v) :
    ∃ p, store.placeFrom? base = some p ∧ v <+: p := by
  obtain ⟨path, rfl, habove⟩ := hv
  have hdirect := h.direct path rfl
  obtain ⟨xs, name, hsteps⟩ := (List.eq_nil_or_concat (steps path)).resolve_left hdirect.ne_nil
  rw [List.concat_eq_append] at hsteps
  obtain ⟨hfront, habs⟩ := steps_directory hsteps
  refine ⟨_, rfl, (habove.of_front ?_ habs).le hdirect.names⟩
  rw [hfront, hsteps]
  exact List.prefix_append _ _

end RecordStore

/-! ## (4) What is done for single roots -/

namespace Importer

variable {m : Importer} {store : RecordStore}

/-- Something done for single roots. -/
inductive Act where
  /-- A request, other than that to check the builds of all roots. -/
  | ask (q : Request) (hq : q ≠ .checkBuilds)
  /-- Make the artifact of a file of the layer at a position of the root at a position. -/
  | make (i j : Nat) (path : String)
  /-- Check the build of the root at a position. -/
  | check (i : Nat)

namespace Act

/-- `a.IsFor m r`: the roots that something is done for. -/
def IsFor (m : Importer) : Act → Root → Prop
  | .ask q _, r => q.Concerns m r
  | .make i _ _, r => m.roots[i]? = some r
  | .check i, r => m.roots[i]? = some r

/-- Do it; the answer, if it was a check. -/
def perform (m : Importer) (store : RecordStore) : Act → Importing (Option BuildCheck)
  | .ask q _ => do
    let _ ← q.perform m store
    return none
  | .make i j path => do
    let r ← .ofExcept (m.root i)
    let _ ← .onRoot i (r.makeArtifact j path)
    return none
  | .check i => do
    let r ← .ofExcept (m.root i)
    return some (← .onRoot i (r.checkBuild store))

variable {a : Act} {r : Root}

/-- What is done is done for roots of the importer. -/
theorem mem_of_isFor (h : a.IsFor m r) : r ∈ m.roots := by
  cases a with
  | ask q hq => exact Request.mem_of_concerns h
  | make i j path => exact List.mem_of_getElem? h
  | check i => exact List.mem_of_getElem? h

/-- It preserves what the artifacts of roots it is done for preserve, and a check of such a root. -/
theorem preserves_perform {I : Workspace → Prop}
    (hartifact : ∀ r, a.IsFor m r → ∀ l path, (Extraction.makeArtifact r.dir l path).Preserves I)
    (hcheck : ∀ i r, a = .check i → a.IsFor m r → (r.checkBuild store).Preserves (Root.Has I)) :
    (a.perform m store).Preserves (Has I) := by
  unfold perform
  cases a with
  | ask q hq => exact (Request.preserves_perform hartifact fun heq => absurd heq hq).bind fun _ => preserves_pure _
  | make i j path =>
    refine Preserves.ofExcept_bind fun r hr => ?_
    refine (preserves_onRoot (Root.preserves_makeArtifact fun l _ => ?_)).bind fun _ => preserves_pure _
    exact hartifact r (root_eq_ok.1 hr) l path
  | check i =>
    refine Preserves.ofExcept_bind fun r hr => ?_
    exact (preserves_onRoot (hcheck i r rfl (root_eq_ok.1 hr))).bind fun _ => preserves_pure _

/-- It obeys a permission for the directories of roots it is done for, for the directories and lock files of roots that
are checked, and for the files of the store. -/
theorem perform_obeys {P : Permission} {w₀ : Workspace} (a : Act)
    (hgrants : ∀ r, a.IsFor m r → P.Grants w₀.tree.base r.dir)
    (hself : ∀ r, a.IsFor m r → P.Owns (placeFrom w₀.tree.base r.dir))
    (hlock : ∀ r, a.IsFor m r → ∀ path, Lock.path r.dir = .ok path → P.Owns (placeFrom w₀.tree.base path))
    (hfiles : ∀ v, store.Writes w₀.tree.base w₀.process v → P.Owns v)
    (hdirs : ∀ v, store.StandsIn w₀.tree.base v → P.Makes v) :
    (a.perform m store).Preserves (Has (Workspace.Obeys P w₀)) :=
  preserves_perform (fun r hr l path => Extraction.makeArtifact_obeys (hgrants r hr) l path) fun _ r _ hr =>
    Root.checkBuild_obeys (hgrants r hr) (hself r hr) (hlock r hr) hfiles hdirs

end Act

/-- The state after some of it was done, whether it ended well or not. -/
def run (m : Importer) (store : RecordStore) (s : ImporterState) (as : List Act) : ImporterState :=
  as.foldl (fun s a => ((a.perform m store).outcome s).2) s

/-- The last act is done in the state that the others have left. -/
theorem run_append_singleton (s : ImporterState) (as : List Act) (a : Act) :
    m.run store s (as ++ [a]) = ((a.perform m store).outcome (m.run store s as)).2 := by
  rw [run, List.foldl_append]
  rfl

/-- It makes no links, moves no relative path and is done by one process. -/
theorem run_plain (m : Importer) (store : RecordStore) {s : ImporterState} (hplain : s.workspace.tree.LinkFree)
    (as : List Act) :
    (m.run store s as).workspace.tree.LinkFree ∧
      (m.run store s as).workspace.tree.base = s.workspace.tree.base ∧
      (m.run store s as).workspace.process = s.workspace.process := by
  induction as generalizing s with
  | nil => exact ⟨hplain, rfl, rfl⟩
  | cons a as ih =>
    have hall : ∀ v, Permission.Owns (fun _ _ _ => True) v := fun _ _ _ _ => trivial
    have hgrants : ∀ dir, Permission.Grants (fun _ _ _ => True) s.workspace.tree.base dir := fun dir =>
      ⟨fun v _ => hall v, fun v _ => trivial⟩
    have ha : Workspace.Obeys (fun _ _ _ => True) s.workspace ((a.perform m store).outcome s).2.workspace :=
      a.perform_obeys (fun r _ => hgrants r.dir) (fun _ _ => hall _) (fun _ _ _ _ => hall _) (fun v _ => hall v)
        (fun _ _ => trivial) s (Workspace.Obeys.refl _ hplain)
    obtain ⟨hplain', hbase, hprocess⟩ := ih ha.plain
    exact ⟨hplain', hbase.trans ha.base, hprocess.trans ha.process⟩

/-! ## (5) Territories are left alone -/

/-- Covered is what is not on the territory of a directory. -/
def Elsewhere (d : Place) : Permission := fun v _ _ => ¬ Territory d v

namespace Apart

variable {r r' : Root} {a : Act} {s : ImporterState} {base : Place} {w₀ : Workspace}

/-- What is done below the directory of another root is done elsewhere. -/
theorem grants (h : m.Apart) (hr : r ∈ m.roots) (hr' : r' ∈ m.roots) (hne : r ≠ r') (base : Place) :
    (Elsewhere (steps r.dir)).Grants base r'.dir := by
  have happart := h.not_territory hr hr' hne
  have hstraight := h.straight r' hr'
  constructor
  · intro v hv old new _
    rw [hstraight.placeFrom_eq] at hv
    exact not_territory_of_territory happart (h.not_territory hr' hr hne.symm) (.inl (isBelow_iff.1 hv).1)
  · intro v hv hterritory
    have hle := hv.le hstraight.names
    rw [hstraight.placeFrom_eq] at hle
    exact happart (hterritory.of_prefix hle)

/-- The lock file of a root is off the territory of all others. -/
theorem lock_elsewhere (h : m.Apart) (hr : r ∈ m.roots) (hr' : r' ∈ m.roots) (hne : r ≠ r') {path : String}
    (hpath : Lock.path r'.dir = .ok path) : (Elsewhere (steps r.dir)).Owns (placeFrom base path) := by
  intro old new _
  have hplace := (h.straight r' hr').placeFrom_lock hpath base
  rw [Elsewhere, hplace]
  exact not_territory_of_territory (h.not_territory hr hr' hne) (h.not_territory hr' hr hne.symm) (territory_lock _)

/-- **What is done for other roots** is done elsewhere, at every moment and however it ends. -/
theorem perform_elsewhere (h : m.Apart) (hstore : store.Beside m w₀.tree.base w₀.process) (hr : r ∈ m.roots)
    (hother : ¬ a.IsFor m r) :
    (a.perform m store).Preserves (Has (Workspace.Obeys (Elsewhere (steps r.dir)) w₀)) := by
  have hne : ∀ r', a.IsFor m r' → r ≠ r' := fun r' hr' heq => hother (heq ▸ hr')
  refine a.perform_obeys (fun r' hr' => h.grants hr (Act.mem_of_isFor hr') (hne r' hr') _) (fun r' hr' => ?_)
    (fun r' hr' path hpath => h.lock_elsewhere hr (Act.mem_of_isFor hr') (hne r' hr') hpath) (fun v hv => ?_)
    fun v hv => ?_
  · intro old new _
    rw [Elsewhere, (h.straight r' (Act.mem_of_isFor hr')).placeFrom_eq]
    exact h.not_territory hr (Act.mem_of_isFor hr') (hne r' hr')
  · exact fun old new _ => hstore.files v (hstore.files_of_writes hv) r hr
  · obtain ⟨p, hp, hle⟩ := hstore.exists_of_standsIn hv
    exact fun hterritory => hstore.files p ⟨p, hp, .inl rfl⟩ r hr (hterritory.of_prefix hle)

/-- **The territory of a root is left as it is** by what is done for other roots, after whatever was done before. -/
theorem leaves_territory (h : m.Apart) (hstore : store.Beside m s.workspace.tree.base s.workspace.process)
    (hplain : s.workspace.tree.LinkFree) (hr : r ∈ m.roots) (as : List Act) (hother : ¬ a.IsFor m r) :
    Workspace.Obeys (Elsewhere (steps r.dir)) (m.run store s as).workspace (m.run store s (as ++ [a])).workspace := by
  obtain ⟨hplain', hbase, hprocess⟩ := run_plain m store hplain as
  rw [← hbase, ← hprocess] at hstore
  rw [run_append_singleton]
  exact h.perform_elsewhere hstore hr hother _ (Workspace.Obeys.refl _ hplain')

end Apart

end Importer

end LayeredBundles
