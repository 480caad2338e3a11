import LayeredBundles.Config.FromToml
import LayeredBundles.Failure
import LayeredBundles.Proofs.Effects
import LayeredBundles.Table
import Mathlib.Data.List.Forall2
import Mathlib.Data.String.Basic

/-! # From TOML to JSON

A document is converted leaf by leaf with one path in hand. Between any two leaves the path has been cut back to where
both of them stand below, so that what is wrong with a leaf is said with its own path, whatever came before it.

* **`Toml.Holds`** — what stands at a position of a value; **`Toml.Offends`** — a leaf that JSON has no form for;
* **`Toml.SameTree`** — a TOML value and a JSON value of the same shape with the same leaves;
* **`KeyPath.Step`** — a step down; **`KeyPath.place`** is a position in words, and positions are compared step by step;
* **`KeyPath.outcome_within_ok`** — a step down and back leaves the path as it was;
* **`Toml.convert_verdict`** — a value is converted, or its first offending leaf is named, by induction on the value;
* **`Toml.toJson_verdict`** — the same for a document. -/

namespace LayeredBundles

open Fallible

/-! ## (1) Positions -/

namespace KeyPath

/-- A step down in a value. -/
inductive Step where
  /-- To a position of a list. -/
  | index (i : Nat)
  /-- To a key of a table. -/
  | key (k : String)

namespace Step

/-- Which of two steps from the same value comes first: positions ascend, and so do keys. -/
def Before : Step → Step → Prop
  | index i, index j => i < j
  | key k, key l => k < l
  | _, _ => False

/-- A path with a step behind it. -/
def extend (path : String) : Step → String
  | index i => path ++ "[" ++ toString i ++ "]"
  | key k => if path = "" then k else path ++ "." ++ k

end Step

/-- The steps to a position behind a path, in words. -/
def placeFrom (path : String) (steps : List Step) : String := steps.foldl Step.extend path

/-- A position in words. -/
def place (steps : List Step) : String := placeFrom "" steps

/-- A place is told from its first step on. -/
theorem placeFrom_cons (path : String) (s : Step) (steps : List Step) :
    placeFrom path (s :: steps) = placeFrom (s.extend path) steps := rfl

/-- A step puts something behind the path. -/
theorem Step.exists_extend (s : Step) (path : String) : ∃ more, s.extend path = path ++ more := by
  cases s with
  | index i => exact ⟨"[" ++ toString i ++ "]", by simp [extend, String.append_assoc]⟩
  | key k =>
    by_cases hempty : path = ""
    · exact ⟨k, by simp [extend, hempty]⟩
    · exact ⟨"." ++ k, by simp [extend, hempty, String.append_assoc]⟩

/-! ### Down and back -/

/-- A text is cut back to what it was by the length of that in bytes. -/
theorem cutChars_append (front back : List Char) : cutChars (String.utf8Len front) (front ++ back) = front := by
  induction front with
  | nil =>
    cases back with
    | nil => rfl
    | cons c back =>
      have := c.utf8Size_pos
      rw [List.nil_append, String.utf8Len_nil, cutChars, if_neg (by omega)]
  | cons c front ih =>
    rw [String.utf8Len_cons, List.cons_append, cutChars, if_pos (by omega), Nat.add_sub_cancel, ih]

/-- **What was put behind a path is cut off again.** -/
theorem cut_append (path more : String) : cut path.utf8ByteSize (path ++ more) = path := by
  have hsize : path.utf8ByteSize = String.utf8Len path.toList := by
    rw [← String.utf8ByteSize_ofList, String.ofList_toList]
  rw [cut, hsize, String.toList_append, cutChars_append, String.ofList_toList]

variable {α : Type} {act : Conversion α} {s : Step} {path left : String} {x : α} {e : ConfigError}

/-- What is done one step further down, and where the path is cut back. -/
theorem outcome_within (step : String → String) (act : Conversion α) (path : String) :
    (within step act).outcome path =
      match act.outcome (step path) with
      | (.ok x, left) => (.ok x, cut path.utf8ByteSize left)
      | (.error e, left) => (.error e, left) := by
  rw [within, outcome_bind, outcome_get]
  dsimp only
  rw [outcome_bind, outcome_modify]
  dsimp only
  rw [outcome_bind]
  rcases act.outcome (step path) with ⟨e | x, left⟩ <;> rfl

/-- **A step down and back** leaves the path as it was. -/
theorem outcome_within_ok (h : act.outcome (s.extend path) = (.ok x, s.extend path)) :
    (within (fun path => s.extend path) act).outcome path = (.ok x, path) := by
  obtain ⟨more, hmore⟩ := s.exists_extend path
  rw [outcome_within, h, hmore]
  dsimp only
  rw [cut_append]

/-- From a failure there is no way back. -/
theorem outcome_within_error (h : act.outcome (s.extend path) = (.error e, left)) :
    (within (fun path => s.extend path) act).outcome path = (.error e, left) := by
  rw [outcome_within, h]

end KeyPath

open KeyPath

namespace Toml

variable {v u : Toml} {s : Step} {p q : List Step} {what : Unsupported} {path : String}

/-! ## (2) Values and what they hold -/

/-- What stands right below a value, in order. -/
def children : Toml → List (Step × Toml)
  | .array items => items.zipIdx.map fun c => (.index c.2, c.1)
  | .table members => members.map fun m => (.key m.1, m.2)
  | _ => []

/-- `v.Holds p u`: at the position `p` of the value stands `u`. -/
inductive Holds : Toml → List Step → Toml → Prop where
  /-- The value itself stands at no steps down. -/
  | here (v : Toml) : Holds v [] v
  /-- A step down, and what stands there. -/
  | down {v w u : Toml} {s : Step} {p : List Step} (child : (s, w) ∈ v.children) (rest : Holds w p u) :
      Holds v (s :: p) u

/-- The keys of every table ascend. -/
def IsOrdered (v : Toml) : Prop := ∀ p members, v.Holds p (.table members) → Table.Sorted members

/-- What is wrong with a leaf. -/
def offence? : Toml → Option Unsupported
  | .datetime _ => some .datetime
  | .float d => if d.isFinite then none else some .nonFinite
  | _ => none

/-- `v.Offends p what`: at the position stands a leaf that JSON has no form for. -/
def Offends (v : Toml) (p : List Step) (what : Unsupported) : Prop := ∃ leaf, v.Holds p leaf ∧ leaf.offence? = some what

/-- No leaf of the value offends. -/
def IsClean (v : Toml) : Prop := ∀ p what, ¬ v.Offends p what

/-- `v.IsFirst p what`: the leaf at the position is the first one that offends, depth first. -/
def IsFirst (v : Toml) (p : List Step) (what : Unsupported) : Prop :=
  v.Offends p what ∧ ∀ q other, v.Offends q other → q = p ∨ List.Lex Step.Before p q

/-- A TOML value and a JSON value of the same shape with the same leaves. -/
inductive SameTree : Toml → Json → Prop where
  /-- A text. -/
  | string (s : String) : SameTree (.string s) (.string s)
  /-- An integer. -/
  | integer (n : Int) : SameTree (.integer n) (.int n)
  /-- A truth value. -/
  | boolean (b : Bool) : SameTree (.boolean b) (.bool b)
  /-- A number. -/
  | float (d : Double) : SameTree (.float d) (.number (.double d))
  /-- A list, item by item. -/
  | array {items : List Toml} {values : List Json} (same : List.Forall₂ SameTree items values) :
      SameTree (.array items) (.array values)
  /-- A table with the same keys, value by value. -/
  | table {members : List (String × Toml)} {values : List (String × Json)}
      (keys : members.map (·.1) = values.map (·.1))
      (same : List.Forall₂ SameTree (members.map (·.2)) (values.map (·.2))) : SameTree (.table members) (.object values)

/-- A child is smaller than the value that it is part of. -/
theorem sizeOf_lt_of_mem_children (h : (s, u) ∈ v.children) : sizeOf u < sizeOf v := by
  cases v with
  | array items =>
    obtain ⟨⟨w, i⟩, hw, heq⟩ := List.mem_map.1 h
    cases heq
    have := List.sizeOf_lt_of_mem (List.fst_mem_of_mem_zipIdx hw)
    simp only [array.sizeOf_spec] at this ⊢
    omega
  | table members =>
    obtain ⟨⟨k, w⟩, hw, heq⟩ := List.mem_map.1 h
    cases heq
    have := List.sizeOf_lt_of_mem hw
    simp only [Prod.mk.sizeOf_spec] at this
    simp only [table.sizeOf_spec]
    omega
  | _ => cases h

/-- Induction on what stands right below a value. -/
theorem induction_children {P : Toml → Prop} (h : ∀ v : Toml, (∀ s u, (s, u) ∈ v.children → P u) → P v) (v : Toml) :
    P v :=
  h v fun _ u hu => have := sizeOf_lt_of_mem_children hu; induction_children h u
termination_by sizeOf v

/-- The parts of an ordered value are ordered. -/
theorem IsOrdered.child (h : v.IsOrdered) (hu : (s, u) ∈ v.children) : u.IsOrdered :=
  fun p members hp => h (s :: p) members (.down hu hp)

/-- A table is in order if its keys ascend and what is under each of them is in order. -/
theorem isOrdered_table {members : List (String × Toml)} (hsorted : Table.Sorted members)
    (h : ∀ m ∈ members, m.2.IsOrdered) : IsOrdered (.table members) := by
  rintro p members' hholds
  cases hholds with
  | here => exact hsorted
  | down child rest =>
    obtain ⟨m, hm, heq⟩ := List.mem_map.1 child
    cases heq
    exact h m hm _ _ rest

/-- An array is ordered if its items are. -/
theorem isOrdered_array {items : List Toml} (h : ∀ v ∈ items, v.IsOrdered) : IsOrdered (.array items) := by
  rintro p members hholds
  cases hholds with
  | down child rest =>
    obtain ⟨c, hc, heq⟩ := List.mem_map.1 child
    cases heq
    exact h c.1 (List.fst_mem_of_mem_zipIdx hc) _ _ rest

/-- A value without parts is ordered. -/
theorem isOrdered_leaf (hchildren : v.children = []) (htable : ∀ members, v ≠ .table members) : v.IsOrdered := by
  rintro p members hholds
  cases hholds with
  | here => exact absurd rfl (htable members)
  | down child rest =>
    rw [hchildren] at child
    cases child

/-- What stands right below a value in order, does so in order. -/
theorem IsOrdered.pairwise_children (h : v.IsOrdered) : v.children.Pairwise fun c d => c.1.Before d.1 := by
  cases v with
  | array items =>
    have hpositions : (items.zipIdx.map Prod.snd).Pairwise (· < ·) := by
      rw [List.zipIdx_map_snd]
      exact List.pairwise_lt_range'
    exact List.pairwise_map.2 ((List.pairwise_map (R := (· < ·))).1 hpositions)
  | table members => exact List.pairwise_map.2 (h [] members (.here _))
  | _ => exact .nil

/-! ## (3) The first offending leaf -/

/-- A value that is no offence itself is clean if its parts are. -/
theorem isClean_of_children (hleaf : v.offence? = none) (h : ∀ c ∈ v.children, c.2.IsClean) : v.IsClean := by
  rintro p what ⟨leaf, hholds, hoffence⟩
  cases hholds with
  | here => cases hleaf.symm.trans hoffence
  | down child rest => exact h _ child _ what ⟨leaf, rest, hoffence⟩

/-- **The first offending leaf** is that of the first child that has one. -/
theorem IsFirst.down {before after : List (Step × Toml)} (h : u.IsFirst p what) (hv : v.IsOrdered)
    (hleaf : v.offence? = none) (hchildren : v.children = before ++ (s, u) :: after)
    (hbefore : ∀ c ∈ before, c.2.IsClean) : v.IsFirst (s :: p) what := by
  obtain ⟨⟨leaf, hholds, hoffence⟩, hfirst⟩ := h
  have hmem : (s, u) ∈ v.children := by simp [hchildren]
  refine ⟨⟨leaf, .down hmem hholds, hoffence⟩, ?_⟩
  rintro q other ⟨leaf', hholds', hoffence'⟩
  cases hholds' with
  | here => cases hleaf.symm.trans hoffence'
  | @down _ w _ s' q child rest =>
    have horder := hv.pairwise_children
    rw [hchildren] at child horder
    rcases List.mem_append.1 child with hearlier | hlater
    · exact absurd ⟨leaf', rest, hoffence'⟩ (hbefore _ hearlier q other)
    · rcases List.mem_cons.1 hlater with heq | hlater
      · cases heq
        exact (hfirst q other ⟨leaf', rest, hoffence'⟩).imp (congrArg _) .cons
      · exact .inr (.rel ((List.pairwise_cons.1 (List.pairwise_append.1 horder).2.1).1 _ hlater))

/-! ## (4) Conversion -/

/-- The children of a value, one after another. -/
def convertChildren : List (Step × Toml) → Conversion (List Json)
  | [] => return []
  | (s, v) :: rest => do
    let j ← within (fun path => s.extend path) v.convert
    let js ← convertChildren rest
    return j :: js

/-- Items are converted as children that stand under their positions. -/
theorem convertItems_eq (i : Nat) (items : List Toml) :
    convertItems i items = convertChildren ((items.zipIdx i).map fun c => (.index c.2, c.1)) := by
  induction items generalizing i with
  | nil => rfl
  | cons v items ih =>
    rw [convertItems, ih]
    rfl

/-- Members are converted as children that stand under their keys, which they keep. -/
theorem convertMembers_eq (members : List (String × Toml)) : convertMembers members = do
    let js ← convertChildren (members.map fun m => (.key m.1, m.2))
    return (members.map (·.1)).zip js := by
  induction members with
  | nil => rfl
  | cons m members ih =>
    obtain ⟨k, v⟩ := m
    rw [convertMembers, ih]
    simp only [List.map_cons, convertChildren, bind_assoc, pure_bind]
    rfl

/-- `v.Converts path`: with the path in hand the value is converted, and the path is left as it was; or else the first
offending leaf is named. -/
def Converts (v : Toml) (path : String) : Prop :=
  (∃ j, v.convert.outcome path = (.ok j, path) ∧ SameTree v j ∧ v.IsClean) ∨
    ∃ p what left, v.convert.outcome path = (.error (.unsupported (placeFrom path p) what), left) ∧ v.IsFirst p what

/-- **Children one after another**: all are converted, or one offends and none before it does. -/
theorem convertChildren_verdict (cs : List (Step × Toml)) (path : String)
    (h : ∀ c ∈ cs, ∀ path, c.2.Converts path) :
    (∃ js, (convertChildren cs).outcome path = (.ok js, path) ∧ List.Forall₂ SameTree (cs.map (·.2)) js ∧
      ∀ c ∈ cs, c.2.IsClean) ∨
    ∃ before s u after p what left, cs = before ++ (s, u) :: after ∧ (∀ c ∈ before, c.2.IsClean) ∧ u.IsFirst p what ∧
      (convertChildren cs).outcome path = (.error (.unsupported (placeFrom path (s :: p)) what), left) := by
  induction cs with
  | nil => exact .inl ⟨[], rfl, .nil, List.forall_mem_nil _⟩
  | cons c cs ih =>
    obtain ⟨s, u⟩ := c
    obtain ⟨hfirst, hrest⟩ := List.forall_mem_cons.1 h
    rcases hfirst (s.extend path) with ⟨j, hj, hsame, hclean⟩ | ⟨p, what, left, herror, hfirst⟩
    · have hstep := outcome_within_ok hj
      rw [convertChildren, outcome_bind_ok hstep]
      rcases ih hrest with
        ⟨js, hjs, hall, hcleans⟩ | ⟨before, s', u', after, p, what, left, rfl, hbefore, hfirst, herror⟩
      · refine .inl ⟨j :: js, ?_, .cons hsame hall, List.forall_mem_cons.2 ⟨hclean, hcleans⟩⟩
        rw [outcome_bind_ok hjs, outcome_pure]
      · refine .inr ⟨(s, u) :: before, s', u', after, p, what, left, rfl, List.forall_mem_cons.2 ⟨hclean, hbefore⟩,
          hfirst, ?_⟩
        rw [outcome_bind_error herror]
    · refine .inr ⟨[], s, u, cs, p, what, left, rfl, List.forall_mem_nil _, hfirst, ?_⟩
      rw [convertChildren, outcome_bind_error (outcome_within_error herror), placeFrom_cons]

/-- What is done with the children of a value decides what is done with the value. -/
theorem converts_of_children (hv : v.IsOrdered) (hleaf : v.offence? = none) (build : List Json → Json)
    (hconvert : v.convert = do return build (← convertChildren v.children))
    (hbuild : ∀ js, List.Forall₂ SameTree (v.children.map (·.2)) js → SameTree v (build js))
    (ih : ∀ c ∈ v.children, ∀ path, c.2.Converts path) (path : String) : v.Converts path := by
  unfold Converts
  rw [hconvert]
  rcases convertChildren_verdict v.children path ih with
    ⟨js, hjs, hsame, hclean⟩ | ⟨before, s, u, after, p, what, left, hchildren, hbefore, hfirst, herror⟩
  · refine .inl ⟨build js, ?_, hbuild js hsame, isClean_of_children hleaf hclean⟩
    rw [outcome_bind_ok hjs, outcome_pure]
  · refine .inr ⟨s :: p, what, left, ?_, hfirst.down hv hleaf hchildren hbefore⟩
    rw [outcome_bind_error herror]

/-- A leaf that offends is the first one of itself. -/
theorem isFirst_leaf (hleaf : v.offence? = some what) (hchildren : v.children = []) : v.IsFirst [] what := by
  refine ⟨⟨v, .here v, hleaf⟩, ?_⟩
  rintro q other ⟨leaf, hholds, -⟩
  cases hholds with
  | here => exact .inl rfl
  | down child rest =>
    rw [hchildren] at child
    cases child

/-- A leaf that does not offend is converted. -/
theorem converts_leaf {j : Json} (hleaf : v.offence? = none) (hchildren : v.children = []) (hsame : SameTree v j)
    (hconvert : v.convert = pure j) (path : String) : v.Converts path := by
  refine .inl ⟨j, by rw [hconvert, outcome_pure], hsame, isClean_of_children hleaf ?_⟩
  rw [hchildren]
  exact List.forall_mem_nil _

/-- **A value is converted, or its first offending leaf is named**, whatever path is in hand. -/
theorem convert_verdict (hv : v.IsOrdered) (path : String) : v.Converts path := by
  induction v using induction_children generalizing path with | h v ih =>
  have hchildren : ∀ c ∈ v.children, ∀ path, c.2.Converts path := fun c hc => ih c.1 c.2 hc (hv.child hc)
  cases v with
  | string s => exact converts_leaf rfl rfl (.string s) (by rw [convert]) path
  | integer n => exact converts_leaf rfl rfl (.integer n) (by rw [convert]) path
  | boolean b => exact converts_leaf rfl rfl (.boolean b) (by rw [convert]) path
  | float d =>
    cases hfinite : d.isFinite with
    | true => exact converts_leaf (by simp [offence?, hfinite]) rfl (.float d) (by simp [convert, hfinite]) path
    | false =>
      refine .inr ⟨[], .nonFinite, path, ?_, isFirst_leaf (by simp [offence?, hfinite]) rfl⟩
      simp only [convert, hfinite, Bool.false_eq_true, if_false]
      rfl
  | datetime written =>
    refine .inr ⟨[], .datetime, path, ?_, isFirst_leaf rfl rfl⟩
    rw [convert]
    rfl
  -- Items and members are converted as children; the buffer is put back after each.
  | array items =>
    refine converts_of_children hv rfl .array (by rw [convert, convertItems_eq]; rfl) ?_ hchildren path
    intro js hsame
    refine .array ?_
    rwa [children, List.map_map, show ((·.2) ∘ fun c : Toml × Nat => (Step.index c.2, c.1)) = Prod.fst from rfl,
      List.zipIdx_map_fst] at hsame
  | table members =>
    refine converts_of_children hv rfl (fun js => .object ((members.map (·.1)).zip js)) ?_ ?_ hchildren path
    · rw [convert, convertMembers_eq]
      simp only [bind_assoc, pure_bind]
      rfl
    · intro js hsame
      rw [children, List.map_map] at hsame
      have hlength : (members.map (·.1)).length = js.length := by
        rw [List.length_map, ← hsame.length_eq, List.length_map]
      refine .table ?_ ?_
      · rw [List.map_fst_zip (Nat.le_of_eq hlength)]
      · rw [List.map_snd_zip (Nat.le_of_eq hlength.symm)]
        exact hsame

/-- **A document is converted, or its first offending leaf is named.** Where no leaf offends, the outcome is a JSON
value of the same shape with the same leaves. Else it is the error for the leaf that comes first, lists being in the
order of their items and tables in that of their keys; it says where the leaf stands and what it is. -/
theorem toJson_verdict (hv : v.IsOrdered) :
    (v.IsClean → ∃ j, v.toJson = .ok j ∧ SameTree v j) ∧
    ((∃ p what, v.Offends p what) → ∃ p what, v.Offends p what ∧
      (∀ q other, v.Offends q other → q = p ∨ List.Lex Step.Before p q) ∧
      v.toJson = .error (.unsupported (place p) what) ∧
      (ImportFailure.config (.unsupported (place p) what)).message = "configuration error: " ++
        ((if place p = "" then "<root>" else place p) ++ ": " ++ what.word ++ " values are not supported")) := by
  have hverdict := convert_verdict hv ""
  constructor
  · intro hclean
    rcases hverdict with ⟨j, hj, hsame, -⟩ | ⟨p, what, left, -, hfirst⟩
    · exact ⟨j, congrArg Prod.fst hj, hsame⟩
    · exact absurd hfirst.1 (hclean p what)
  · rintro ⟨p, what, hoffends⟩
    rcases hverdict with ⟨j, -, -, hclean⟩ | ⟨p', what', left, herror, hfirst⟩
    · exact absurd hoffends (hclean p what)
    · exact ⟨p', what', hfirst.1, hfirst.2, congrArg Prod.fst herror, rfl⟩

/-- A document with a number and a date in a list below the empty key, and after that an infinite number. -/
def dated : Toml :=
  .table [("", .table [("a", .array [.float ⟨0⟩, .datetime "2024-01-02"])]), ("b", .float (.infinity false))]

/-- A document with a number in a list. -/
def plain : Toml := .table [("a", .array [.integer 1])]

/-- Of the first document the date is named, without a point before its first key that is not empty; the second one is
converted. -/
theorem dated_verdict : dated.IsOrdered ∧ dated.Offends [.key "", .key "a", .index 1] .datetime ∧
    (∃ p what, dated.Offends p what ∧ (∀ q other, dated.Offends q other → q = p ∨ List.Lex Step.Before p q) ∧
      dated.toJson = .error (.unsupported (place p) what) ∧ place p = "a[1]" ∧ what = .datetime) ∧
    plain.IsOrdered ∧ plain.IsClean ∧ ∃ j, plain.toJson = .ok j ∧ SameTree plain j := by
  have hlist : IsOrdered (.array [.float ⟨0⟩, .datetime "2024-01-02"]) :=
    isOrdered_array
      (List.forall_mem_cons.2 ⟨isOrdered_leaf rfl nofun, List.forall_mem_singleton.2 (isOrdered_leaf rfl nofun)⟩)
  have hinner : IsOrdered (.table [("a", .array [.float ⟨0⟩, .datetime "2024-01-02"])]) :=
    isOrdered_table (List.pairwise_singleton _ _) (List.forall_mem_singleton.2 hlist)
  have hordered : dated.IsOrdered :=
    isOrdered_table (by unfold Table.Sorted; decide +kernel)
      (List.forall_mem_cons.2 ⟨hinner, List.forall_mem_singleton.2 (isOrdered_leaf rfl nofun)⟩)
  have hoffends : dated.Offends [.key "", .key "a", .index 1] .datetime :=
    ⟨_, .down List.mem_cons_self (.down List.mem_cons_self (.down (List.mem_cons_of_mem _ List.mem_cons_self)
      (.here _))), rfl⟩
  obtain ⟨p, what, hp, hfirst, herror, -⟩ := (toJson_verdict hordered).2 ⟨_, _, hoffends⟩
  have hvalue : dated.toJson = .error (.unsupported "a[1]" .datetime) := by rfl
  have hsame := herror.symm.trans hvalue
  injection hsame with hsame
  injection hsame with hplace hwhat
  have hplain : plain.IsOrdered :=
    isOrdered_table (List.pairwise_singleton _ _)
      (List.forall_mem_singleton.2 (isOrdered_array (List.forall_mem_singleton.2 (isOrdered_leaf rfl nofun))))
  have hinteger : IsClean (.integer 1) := isClean_of_children rfl (List.forall_mem_nil _)
  have hitems : IsClean (.array [.integer 1]) := isClean_of_children rfl (List.forall_mem_singleton.2 hinteger)
  have hclean : plain.IsClean := isClean_of_children rfl (List.forall_mem_singleton.2 hitems)
  exact ⟨hordered, hoffends, ⟨p, what, hp, hfirst, herror, hplace, hwhat⟩, hplain, hclean,
    (toJson_verdict hplain).1 hclean⟩

end Toml

end LayeredBundles
