import LayeredBundles.Json.Decode
import LayeredBundles.Json.Reader
import LayeredBundles.Json.Printer
import LayeredBundles.Timestamp

/-! # Records of a build

A root is known by its extraction directory. What it was last checked against is recorded: a token for
each of its layers. If a token has changed since, what was extracted is out of date.

* **`BuildRecord`** — the tokens of a root, and when they were recorded;
* **`BuildRecord.differing`** — the layers whose token has changed;
* **`BuildRecord.toJson`**, **`ofJson?`** — a record as JSON, and back;
* **`BuildRecords`** — the records of many roots. -/

namespace LayeredBundles

/-- Tokens by layer name. -/
abbrev Tokens := Table String String

/-- The tokens a root was last checked against. -/
structure BuildRecord where
  /-- The version of the form of the record. -/
  version : Nat
  /-- The token of each layer. -/
  layers : Tokens
  /-- When the record was made. -/
  updated : Timestamp
  deriving DecidableEq, Repr

/-- Records by root. -/
abbrev BuildRecords := Table String BuildRecord

namespace BuildRecord

/-- The version of records made here. -/
def currentVersion : Nat := 1

/-- A record made at the given time. -/
def new (layers : Tokens) (updated : Timestamp) : BuildRecord := ⟨currentVersion, layers, updated⟩

/-- The names of layers whose token is new or has changed, and of those that are gone, ascending. -/
def differing (r : BuildRecord) (current : Tokens) : List String :=
  let changed := current.filter fun l => Table.find? r.layers l.1 ≠ some l.2
  -- a name is in at most one of the two lists
  let gone := r.layers.filter fun l => !Table.contains current l.1
  (Table.keys changed ++ Table.keys gone).mergeSort fun a b => decide (a ≤ b)

/-! ## (1) Records as JSON -/

/-- The record as JSON. -/
def toJson (r : BuildRecord) : Json :=
  .object [("schema_version", .nat r.version),
    ("layers", .object (r.layers.map fun l => (l.1, .string l.2))),
    ("updated_at", .string r.updated.render)]

/-- The record of a JSON value. -/
def ofJson? (v : Json) : Option BuildRecord := do
  match ← v.fields? ["schema_version", "layers", "updated_at"] with
  | [version, layers, updated] =>
    return ⟨← version.required (Json.asNat UInt32.size), ← layers.required (Json.asTable Json.asString),
      ← updated.required fun v => Json.asString v >>= Timestamp.parse?⟩
  | _ => none

end BuildRecord

namespace BuildRecords

/-- Records as the text of a file. -/
def render (rs : BuildRecords) : String :=
  (Json.object (rs.map fun r => (r.1, r.2.toJson))).pretty

/-- The records of a file's text. -/
def parse? (s : String) : Option BuildRecords := Json.parse? s >>= Json.asTable BuildRecord.ofJson?

end BuildRecords

end LayeredBundles
