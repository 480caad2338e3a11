import LayeredBundles.Json.Value

/-! # Records from JSON

A record is given as an object, whose unknown members do not count, or as an array of its fields in
order.

* **`Json.Field`** — how a field is given;
* **`Json.fields?`** — the fields of a record;
* **`Json.Field.required`**, **`optional`**, **`orElse`** — what to do about a field that is missing. -/

namespace LayeredBundles

namespace Json

/-- How a field of a record is given. -/
inductive Field where
  /-- With a value. -/
  | given (value : Json)
  /-- Not at all, in an object. -/
  | noMember
  /-- Not at all, in an array that ends before it. -/
  | noItem

/-- The field of that name among members; nothing when it occurs twice. -/
def memberField? (members : List (String × Json)) (name : String) : Option Field :=
  match members.filter (·.1 = name) with
  | [] => some .noMember
  | [m] => some (.given m.2)
  | _ => none

/-- Items as fields of the given names, those without an item missing; nothing when there are more items
than names. -/
def itemFields? : List String → List Json → Option (List Field)
  | [], [] => some []
  | [], _ :: _ => none
  | _ :: names, [] => (itemFields? names []).map (.noItem :: ·)
  | _ :: names, v :: items => (itemFields? names items).map (.given v :: ·)

/-- The fields of a record, one for each name. -/
def fields? (names : List String) : Json → Option (List Field)
  | .object members => names.mapM (memberField? members)
  | .array items => itemFields? names items
  | _ => none

/-- A field that has to be given. -/
def Field.required {α : Type} (decode : Json → Option α) : Field → Option α
  | .given v => decode v
  | _ => none

/-- A field with a value for when it is missing. -/
def Field.orElse {α : Type} (decode : Json → Option α) (fallback : α) : Field → Option α
  | .given v => decode v
  | _ => some fallback

/-- A value that may be null. -/
def nullable {α : Type} (decode : Json → Option α) : Json → Option (Option α)
  | .null => some none
  | v => (decode v).map some

/-- A field that may be null, and may be missing from an object but not from an array. -/
def Field.optional {α : Type} (decode : Json → Option α) : Field → Option (Option α)
  | .given v => nullable decode v
  | .noMember => some none
  | .noItem => none

/-- A text. -/
def asString : Json → Option String
  | .string s => some s
  | _ => none

/-- An integer from zero up to, but not including, `bound`. -/
def asNat (bound : Nat) : Json → Option Nat
  | .number (.int n) => if 0 ≤ n ∧ n < bound then some n.toNat else none
  | _ => none

/-- A list. -/
def asList {α : Type} (decode : Json → Option α) : Json → Option (List α)
  | .array items => items.mapM decode
  | _ => none

/-- Values by key; of equal keys the last one stands. -/
def asTable {α : Type} (decode : Json → Option α) : Json → Option (Table String α)
  | .object members => (members.mapM fun m => (decode m.2).map fun v => (m.1, v)).map Table.ofPairs
  | _ => none

end Json

end LayeredBundles
