import LayeredBundles.Decimal.Double
import LayeredBundles.Table

/-! # TOML values

* **`Toml`** — a value of a TOML document; tables have their keys in ascending order. -/

namespace LayeredBundles

/-- A **TOML value**. -/
inductive Toml where
  /-- A text. -/
  | string (value : String)
  /-- An integer of 64 bits. -/
  | integer (value : Int)
  /-- A floating-point number. -/
  | float (value : Double)
  /-- A truth value. -/
  | boolean (value : Bool)
  /-- A date, a time of day or both, as written. -/
  | datetime (written : String)
  /-- A list of values. -/
  | array (items : List Toml)
  /-- Values by key. -/
  | table (members : List (String × Toml))
  deriving Repr

end LayeredBundles
