import LayeredBundles.Config.Settings
import LayeredBundles.Proofs.Tables

/-! # What merging leaves under each key path

Two values laid over each other are compared key path by key path. The overlay is followed as far as it goes: what it
holds stands on top, what it says nothing about is left to the base, and what it replaces by something other than an
object is gone.

* **`Json.IsOrdered`** — the keys of every object ascend; **`Json.isOrdered_canonical`** — so they do in canonical form;
* **`Json.walk`** — where a key path ends in a value; **`Json.at?`** — what stands at its end;
* **`Json.under_overlay`** — merging, one key at a time;
* **`Json.at?_overlay`** — merging, one key path at a time, by induction on the path;
* **`Json.overlay_overlay`** — an overlay changes nothing the second time;
* **`Json.overlay_obeys_paths`** — all of it. -/

namespace LayeredBundles

namespace Json

variable {v w a b : Json} {k : String} {members base : List (String × Json)}

/-! ## (1) Values in order -/

mutual

/-- The keys of every object ascend. -/
def IsOrdered : Json → Prop
  | .array items => AreOrdered items
  | .object members => Table.Sorted members ∧ HaveOrdered members
  | _ => True

/-- `IsOrdered` of each item. -/
def AreOrdered : List Json → Prop
  | [] => True
  | v :: rest => IsOrdered v ∧ AreOrdered rest

/-- `IsOrdered` of the value of each member. -/
def HaveOrdered : List (String × Json) → Prop
  | [] => True
  | (_, v) :: rest => IsOrdered v ∧ HaveOrdered rest

end

/-- Members are ordered if the value of each is. -/
theorem haveOrdered_iff : HaveOrdered members ↔ ∀ m ∈ members, IsOrdered m.2 := by
  induction members with
  | nil => simp [HaveOrdered]
  | cons m members ih => simp [HaveOrdered, ih]

mutual

/-- **The canonical form is in order.** -/
theorem isOrdered_canonical : ∀ v : Json, v.canonical.IsOrdered
  | .null | .bool _ | .number _ | .string _ => trivial
  | .array items => areOrdered_canonicalItems items
  | .object members => by
    refine ⟨Table.sorted_ofPairs _, haveOrdered_iff.2 fun m hm => ?_⟩
    exact haveOrdered_iff.1 (haveOrdered_canonicalMembers members) m (Table.mem_ofPairs hm)

/-- Items are ordered once they are in canonical form. -/
theorem areOrdered_canonicalItems : ∀ items : List Json, AreOrdered (canonicalItems items)
  | [] => trivial
  | v :: rest => ⟨isOrdered_canonical v, areOrdered_canonicalItems rest⟩

/-- So are members. -/
theorem haveOrdered_canonicalMembers : ∀ members : List (String × Json), HaveOrdered (canonicalMembers members)
  | [] => trivial
  | (_, v) :: rest => ⟨isOrdered_canonical v, haveOrdered_canonicalMembers rest⟩

end

/-- Whether a value is an object. -/
def isObject : Json → Bool
  | .object _ => true
  | _ => false

/-- The value under a key of an object. -/
def under (k : String) : Json → Option Json
  | .object members => Table.find? members k
  | _ => none

/-- An object is one of some members. -/
theorem exists_object (h : v.isObject = true) : ∃ members, v = .object members := by
  cases v with
  | object members => exact ⟨members, rfl⟩
  | _ => cases h

/-- Nothing stands under a key of what is no object. -/
theorem under_of_not_object (h : v.isObject = false) : v.under k = none := by
  cases v with
  | object members => cases h
  | _ => rfl

/-- An object is in order if its keys ascend and what is under each of them is in order. -/
theorem isOrdered_object_iff : IsOrdered (.object members) ↔
    Table.Sorted members ∧ ∀ k w, Table.find? members k = some w → w.IsOrdered := by
  rw [IsOrdered, haveOrdered_iff]
  refine and_congr_right fun hsorted => ⟨fun h k w hw => h (k, w) (Table.mem_of_find? hw), fun h m hm => ?_⟩
  exact h m.1 m.2 (Table.find?_of_mem hsorted.nodup hm)

/-- What stands under a key of an ordered value is ordered. -/
theorem IsOrdered.under (h : v.IsOrdered) (hw : v.under k = some w) : w.IsOrdered := by
  cases v with
  | object members => exact (isOrdered_object_iff.1 h).2 k w hw
  | _ => cases hw

/-- Induction on what is under the keys of a value. -/
theorem induction_under {P : Json → Prop} (h : ∀ v : Json, (∀ k w, v.under k = some w → P w) → P v) (v : Json) : P v :=
  h v fun k w hw => by
    cases v with
    | object members =>
      have hmem : (k, w) ∈ members := Table.mem_of_find? hw
      have hlt : sizeOf w < sizeOf members := by
        have := List.sizeOf_lt_of_mem hmem
        simp only [Prod.mk.sizeOf_spec] at this
        omega
      exact induction_under h w
    | _ => cases hw
termination_by sizeOf v
decreasing_by simp only [object.sizeOf_spec]; omega

/-! ## (2) One key at a time -/

/-- Unless both values are objects, the overlay stands alone. -/
theorem overlay_eq_right (h : ¬ (a.isObject = true ∧ b.isObject = true)) : a.overlay b = b := by
  cases a <;> cases b <;> first | rfl | exact absurd ⟨rfl, rfl⟩ h

/-- A value that is laid over null stands alone. -/
theorem null_overlay (v : Json) : Json.null.overlay v = v := overlay_eq_right fun h => Bool.false_ne_true h.1

/-- **Members laid over a table**, one key at a time: a key of the overlay is laid over that of the table. -/
theorem find?_overlayMembers (hkeys : (members.map (·.1)).Nodup) (base : Table String Json) (k : String) :
    Table.find? (overlayMembers base members) k =
      (Table.find? members k).elim (Table.find? base k)
        fun v => some (overlay ((Table.find? base k).getD .null) v) := by
  induction members generalizing base with
  | nil => rfl
  | cons m members ih =>
    obtain ⟨key, v⟩ := m
    obtain ⟨hnew, hrest⟩ := List.nodup_cons.1 hkeys
    rw [overlayMembers, ih hrest, Table.find?_insert, Table.find?_cons]
    by_cases hk : k = key
    · -- the key does not come again
      rw [if_pos hk, if_pos hk, hk, Table.find?_eq_none_iff.2 hnew]
      cases Table.find? base key with
      | none => exact congrArg some (null_overlay v).symm
      | some old => rfl
    · rw [if_neg hk, if_neg hk]

/-- Members stay in order when others are laid over them. -/
theorem sorted_overlayMembers (h : Table.Sorted base) (members : List (String × Json)) :
    Table.Sorted (overlayMembers base members) := by
  induction members generalizing base with
  | nil => exact h
  | cons m members ih => exact ih (Table.sorted_insert h _ _)

/-- **An object laid over a value**, one key at a time. -/
theorem under_overlay (hb : b.IsOrdered) (hobject : b.isObject = true) (a : Json) (k : String) :
    (a.overlay b).under k = (b.under k).elim (a.under k) fun v => some (overlay ((a.under k).getD .null) v) := by
  obtain ⟨members, rfl⟩ := exists_object hobject
  cases ha : a.isObject with
  | true =>
    obtain ⟨base, rfl⟩ := exists_object ha
    exact find?_overlayMembers (isOrdered_object_iff.1 hb).1.nodup base k
  | false =>
    rw [overlay_eq_right (by simp [ha]), under_of_not_object ha]
    cases (object members).under k with
    | none => rfl
    | some v => exact congrArg some (null_overlay v).symm

/-- What is under a key of a value, or else null, is in order. -/
theorem IsOrdered.getD_under (h : a.IsOrdered) (k : String) : ((a.under k).getD .null).IsOrdered := by
  cases hunder : a.under k with
  | none => trivial
  | some w => exact h.under hunder

/-- **Values in order, laid over each other, are in order.** -/
theorem IsOrdered.overlay (ha : a.IsOrdered) (hb : b.IsOrdered) : (a.overlay b).IsOrdered := by
  induction b using induction_under generalizing a with | h b ih =>
  by_cases hobjects : a.isObject = true ∧ b.isObject = true
  · obtain ⟨⟨base, rfl⟩, members, rfl⟩ := hobjects.imp exists_object exists_object
    refine isOrdered_object_iff.2 ⟨sorted_overlayMembers (isOrdered_object_iff.1 ha).1 members, fun k w hw => ?_⟩
    have hunder := under_overlay hb rfl (object base) k
    rw [show ((object base).overlay (object members)).under k = some w from hw] at hunder
    cases hv : (object members).under k with
    | none =>
      rw [hv] at hunder
      exact ha.under hunder.symm
    | some v =>
      rw [hv] at hunder
      cases hunder
      exact ih k v hv (ha.getD_under k) (hb.under hv)
  · rwa [overlay_eq_right hobjects]

/-! ## (3) One key path at a time -/

/-- Where a key path ends. -/
inductive Walk where
  /-- At a value. -/
  | reached (v : Json)
  /-- At an object that lacks the next key. -/
  | lacking
  /-- At a value that is no object, with keys left. -/
  | blocked

/-- Follow a key path through objects. -/
def walk : Json → List String → Walk
  | v, [] => .reached v
  | .object members, k :: ks =>
    match Table.find? members k with
    | some v => walk v ks
    | none => .lacking
  | _, _ :: _ => .blocked

/-- What stands at the end of a key path. -/
def at? (v : Json) (path : List String) : Option Json :=
  match v.walk path with
  | .reached w => some w
  | _ => none

/-- The empty path leads to the value itself. -/
@[simp] theorem at?_nil (v : Json) : v.at? [] = some v := rfl

/-- A key path, one key at a time. -/
theorem at?_cons (v : Json) (k : String) (ks : List String) : v.at? (k :: ks) = (v.under k).bind (at? · ks) := by
  cases v with
  | object members =>
    rw [at?, walk, under]
    cases Table.find? members k <;> rfl
  | _ => rfl

/-- A path that goes on into what is no object is blocked. -/
theorem walk_of_not_object (h : v.isObject = false) (k : String) (ks : List String) : v.walk (k :: ks) = .blocked := by
  cases v with
  | object members => cases h
  | _ => rfl

/-- In an object a path goes on under its key, or the key is lacking. -/
theorem walk_object (h : v.isObject = true) (k : String) (ks : List String) :
    v.walk (k :: ks) = (v.under k).elim .lacking (walk · ks) := by
  obtain ⟨members, rfl⟩ := exists_object h
  rw [walk, under]
  cases Table.find? members k <;> rfl

/-- **Merging, one key path at a time**: the overlay is followed, and the base only as far as the overlay goes. -/
theorem at?_overlay (hb : b.IsOrdered) (a : Json) (path : List String) : (a.overlay b).at? path =
    match b.walk path with
    | .reached v => some (overlay ((a.at? path).getD .null) v)
    | .lacking => a.at? path
    | .blocked => none := by
  induction path generalizing a b with
  | nil => rfl
  | cons k ks ih =>
    cases hobject : b.isObject with
    | false =>
      rw [overlay_eq_right (by simp [hobject]), walk_of_not_object hobject, at?_cons, under_of_not_object hobject]
      rfl
    | true =>
      rw [at?_cons, under_overlay hb hobject, walk_object hobject, at?_cons]
      cases hv : b.under k with
      | none => rfl
      | some v =>
        dsimp only [Option.elim_some, Option.bind_some]
        rw [ih (hb.under hv)]
        cases a.under k with
        | some old => rfl
        | none =>
          -- Below a key that the base lacks there is nothing of it, as there is nothing below null.
          cases ks with
          | nil => rfl
          | cons k' ks => rfl

/-! ## (4) An overlay laid twice -/

/-- **An overlay changes nothing the second time.** -/
theorem overlay_overlay (ha : a.IsOrdered) (hb : b.IsOrdered) : (a.overlay b).overlay b = a.overlay b := by
  induction b using induction_under generalizing a with | h b ih =>
  have hab := ha.overlay hb
  cases hobject : b.isObject with
  | false => rw [overlay_eq_right (by simp [hobject]), overlay_eq_right (by simp [hobject])]
  | true =>
    have hunder : ∀ k, ((a.overlay b).overlay b).under k = (a.overlay b).under k := by
      intro k
      rw [under_overlay hb hobject, under_overlay hb hobject]
      cases hv : b.under k with
      | none => rfl
      | some v => exact congrArg some (ih k v hv (ha.getD_under k) (hb.under hv))
    obtain ⟨merged, hmerged⟩ : ∃ merged, a.overlay b = .object merged := by
      obtain ⟨members, rfl⟩ := exists_object hobject
      cases a <;> exact ⟨_, rfl⟩
    obtain ⟨members, rfl⟩ := exists_object hobject
    have htwice := hab.overlay hb
    rw [hmerged] at hab htwice hunder ⊢
    exact congrArg object ((isOrdered_object_iff.1 htwice).1.ext (isOrdered_object_iff.1 hab).1 hunder)

/-- **Merging obeys key paths.** Of two values whose objects have their keys in order, merging makes another one, and
under a key path

1. there is nothing if the overlay ends before in a value that is no object;
2. there is what the base has if the overlay lacks a key of the path;
3. there is what the overlay has, laid over an object of the base if it is an object too.

So to lay the overlay over the result changes nothing. -/
theorem overlay_obeys_paths (ha : a.IsOrdered) (hb : b.IsOrdered) : (a.overlay b).IsOrdered ∧
    (∀ path,
      (b.walk path = .blocked → (a.overlay b).at? path = none) ∧
      (b.walk path = .lacking → (a.overlay b).at? path = a.at? path) ∧
      ∀ v, b.walk path = .reached v →
        (∀ old, a.at? path = some old → old.isObject = true → v.isObject = true →
          (a.overlay b).at? path = some (old.overlay v)) ∧
        ((∀ old, a.at? path = some old → ¬ (old.isObject = true ∧ v.isObject = true)) →
          (a.overlay b).at? path = some v)) ∧
    (a.overlay b).overlay b = a.overlay b := by
  refine ⟨ha.overlay hb, fun path => ?_, overlay_overlay ha hb⟩
  have hlaw := at?_overlay hb a path
  refine ⟨fun hblocked => ?_, fun hlacking => ?_, fun v hreached => ⟨fun old hold _ _ => ?_, fun hnot => ?_⟩⟩
  · rw [hlaw, hblocked]
  · rw [hlaw, hlacking]
  · rw [hlaw, hreached, hold]
    rfl
  · rw [hlaw, hreached]
    cases hold : a.at? path with
    | none => exact congrArg some (null_overlay v)
    | some old => exact congrArg some (overlay_eq_right (hnot old hold))

/-- Settings that name one more suffix, and put a text in the place of a list. -/
def twoChanges : Json :=
  canonical (.object [("suffixes", .object [("source", .strings [".py", ".pyw"])]), ("roots", .string "none")])

/-- Laid over the built-in values they replace the one list, leave the other, and put an end to the way into the
third. -/
theorem twoChanges_overlaid : Settings.builtin.IsOrdered ∧ twoChanges.IsOrdered ∧
    (Settings.builtin.overlay twoChanges).at? ["suffixes", "source"] = some (.strings [".py", ".pyw"]) ∧
    (Settings.builtin.overlay twoChanges).at? ["suffixes", "bytecode"] = some (.strings [".pyc"]) ∧
    (Settings.builtin.overlay twoChanges).at? ["roots", "0"] = none ∧
    (Settings.builtin.overlay twoChanges).overlay twoChanges = Settings.builtin.overlay twoChanges := by
  have hbuiltin : Settings.builtin.IsOrdered := isOrdered_canonical _
  have hchanges : twoChanges.IsOrdered := isOrdered_canonical _
  obtain ⟨-, hpaths, htwice⟩ := overlay_obeys_paths hbuiltin hchanges
  refine ⟨hbuiltin, hchanges, ?_, ?_, (hpaths _).1 rfl, htwice⟩
  · exact ((hpaths _).2.2 _ rfl).2 fun old hold hobjects => Bool.false_ne_true hobjects.2
  · exact (hpaths _).2.1 rfl

end Json

end LayeredBundles
