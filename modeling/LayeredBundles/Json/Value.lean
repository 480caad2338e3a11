import LayeredBundles.Table
import LayeredBundles.Decimal.Double

/-! # JSON values

* **`Json`** — a JSON value; the members of an object stand in the order they were written;
* **`Json.canonical`** — the same value with the members of each object sorted by key, of equal keys
  the last. -/

namespace LayeredBundles

/-- A JSON number: an integer of 64 bits, signed or unsigned, or a double. -/
inductive Json.Number where
  /-- An integer. -/
  | int (value : Int)
  /-- A double. -/
  | double (value : Double)
  deriving DecidableEq, Repr

/-- A **JSON value**. -/
inductive Json where
  /-- The null value. -/
  | null
  /-- A truth value. -/
  | bool (value : Bool)
  /-- A number. -/
  | number (value : Json.Number)
  /-- A text. -/
  | string (value : String)
  /-- A list of values. -/
  | array (items : List Json)
  /-- Members in written order; a key may occur more than once. -/
  | object (members : List (String × Json))
  deriving Repr

namespace Json

/-- An integer value. -/
def int (n : Int) : Json := .number (.int n)

/-- A natural number as a value. -/
def nat (n : Nat) : Json := .number (.int n)

/-- A list of texts. -/
def strings (texts : List String) : Json := .array (texts.map .string)

mutual

/-- The value with the members of each object sorted by key; of equal keys the last one stands. -/
def canonical : Json → Json
  | .array items => .array (canonicalItems items)
  | .object members => .object (Table.ofPairs (canonicalMembers members))
  | v => v

/-- `canonical` on each item. -/
def canonicalItems : List Json → List Json
  | [] => []
  | v :: rest => canonical v :: canonicalItems rest

/-- `canonical` on the value of each member. -/
def canonicalMembers : List (String × Json) → List (String × Json)
  | [] => []
  | (k, v) :: rest => (k, canonical v) :: canonicalMembers rest

end

/-- The value of the last member of that key. -/
def member? (key : String) : Json → Option Json
  | .object members => (members.reverse.find? (fun m => m.1 = key)).map (·.2)
  | _ => none

end Json

end LayeredBundles
