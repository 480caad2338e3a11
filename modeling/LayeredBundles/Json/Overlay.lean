import LayeredBundles.Json.Value

/-! # Merging settings

* **`Json.overlay`** — lay one value over another: objects are merged key by key, anything else is
  replaced;
* **`Json.overlayAll`** — lay values over each other in turn, the last one on top. -/

namespace LayeredBundles

namespace Json

mutual

/-- Lay `overlay` over `base`: of two objects every key of the overlay is laid over that of the base;
otherwise the overlay stands alone. -/
def overlay : Json → Json → Json
  | .object base, .object overlay => .object (overlayMembers base overlay)
  | _, overlay => overlay

/-- Lay members over those of a table, one after another. -/
def overlayMembers (base : Table String Json) : List (String × Json) → Table String Json
  | [] => base
  | (k, v) :: rest =>
    let merged := match Table.find? base k with
      | some old => overlay old v
      | none => v
    overlayMembers (Table.insert k merged base) rest

end

/-- Lay values over each other in turn, the first of them over null. -/
def overlayAll (layers : List Json) : Json := layers.foldl overlay .null

end Json

end LayeredBundles
