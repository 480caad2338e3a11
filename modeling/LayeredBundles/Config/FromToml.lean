import LayeredBundles.Config.Error
import LayeredBundles.Json.Value
import LayeredBundles.Storage.Workspace
import LayeredBundles.Toml.Value

/-! # Settings from a TOML document

* **`KeyPath`** — where a value stands: keys and positions, outermost first; one path is in hand throughout, extended on
  the way down and cut back on the way up;
* **`Toml.convert`** — the same tree as JSON, or the first value that JSON has no form for;
* **`Toml.toJson`** — the same for a whole document. -/

namespace LayeredBundles

/-- A conversion, with the path of the value at hand. A failure leaves the path where it happened. -/
abbrev Conversion (α : Type) : Type := Fallible String ConfigError α

namespace KeyPath

/-- The path of position `i` in the list at `path`. -/
def index (path : String) (i : Nat) : String := path ++ "[" ++ toString i ++ "]"

/-- The path of `key` in the table at `path`. -/
def member (path key : String) : String := if path = "" then key else path ++ "." ++ key

/-- As many characters as fit in `size` bytes. -/
def cutChars : Nat → List Char → List Char
  | _, [] => []
  | size, c :: cs => if c.utf8Size ≤ size then c :: cutChars (size - c.utf8Size) cs else []

/-- A path cut back to `size` bytes. -/
def cut (size : Nat) (path : String) : String := String.ofList (cutChars size path.toList)

/-- Do something one step further down, and go back. -/
def within {α : Type} (step : String → String) (act : Conversion α) : Conversion α := do
  let size := (← get).utf8ByteSize
  modify step
  let out ← act
  -- a failure ends the whole conversion, so that there is no way back from it
  modify (cut size)
  return out

end KeyPath

namespace Toml

/-- The failure of a value that JSON has no form for. -/
def unsupported {α : Type} (what : Unsupported) : Conversion α := do
  throw (.unsupported (← get) what)

mutual

/-- The value at the path in hand as JSON. Dates, times and numbers that are not finite have no form there; the first
one met, in key order, is the error. -/
def convert : Toml → Conversion Json
  | .string s => return .string s
  | .integer n => return .int n
  | .boolean b => return .bool b
  | .float d => if d.isFinite then return .number (.double d) else unsupported .nonFinite
  | .datetime _ => unsupported .datetime
  | .array items => return .array (← convertItems 0 items)
  | .table members => return .object (← convertMembers members)

/-- The items of a list, from position `i` on. -/
def convertItems (i : Nat) : List Toml → Conversion (List Json)
  | [] => return []
  | v :: rest => do
    let j ← KeyPath.within (KeyPath.index · i) (convert v)
    let js ← convertItems (i + 1) rest
    return j :: js

/-- The members of a table. -/
def convertMembers : List (String × Toml) → Conversion (List (String × Json))
  | [] => return []
  | (k, v) :: rest => do
    let j ← KeyPath.within (KeyPath.member · k) (convert v)
    let js ← convertMembers rest
    return (k, j) :: js

end

/-- A document as JSON. -/
def toJson (v : Toml) : Except ConfigError Json := (v.convert.outcome "").1

end Toml

end LayeredBundles
