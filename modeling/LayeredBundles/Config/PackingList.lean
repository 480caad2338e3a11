import LayeredBundles.Config.Error
import LayeredBundles.Json.Decode
import LayeredBundles.Json.Reader

/-! # Build manifests

The step that packs the bundles writes down a token for each of them, and the packages whose source has
to stand on disk.

* **`PackingList`** — what was written down;
* **`PackingList.parse`** — read it from JSON. -/

namespace LayeredBundles

/-- What the packing step wrote down. -/
structure PackingList where
  /-- The token of each bundle, by layer name. -/
  assets : Table String String
  /-- Top-level packages whose source has to stand on disk. -/
  extractPackages : List String
  deriving DecidableEq, Repr

namespace PackingList

/-- The manifest of a JSON value. -/
def ofJson? (v : Json) : Option PackingList := do
  match ← v.fields? ["assets", "extract_packages"] with
  | [assets, extractPackages] =>
    return ⟨← assets.orElse (Json.asTable Json.asString) [],
      ← extractPackages.orElse (Json.asList Json.asString) []⟩
  | _ => none

/-- The manifest of a text. -/
def parse (s : String) : Except ConfigError PackingList :=
  match (Json.parse? s).bind ofJson? with
  | some m => .ok m
  | none => .error .badPackingList

/-- The manifest as JSON. -/
def toJson (m : PackingList) : Json :=
  .object [("assets", .object (m.assets.map fun a => (a.1, .string a.2))),
    ("extract_packages", .strings m.extractPackages)]

end PackingList

end LayeredBundles
