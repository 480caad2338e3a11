import LayeredBundles.Table

/-! # What was loaded

* **`LoadStatus`** — what became of a library;
* **`LoadTable`** — the outcome of each library that was asked for, by name. -/

namespace LayeredBundles

/-- What became of a library. -/
inductive LoadStatus where
  /-- It is being loaded: what it needs comes first. -/
  | pending
  /-- It was loaded from a bundled copy. -/
  | bundled (path : String)
  /-- It was loaded from the system. -/
  | system
  /-- It could not be loaded. -/
  | failed (reason : String)
  deriving DecidableEq, Repr

/-- Whether the library is loaded. -/
def LoadStatus.isLoaded : LoadStatus → Bool
  | .bundled _ | .system => true
  | _ => false

/-- The outcome of each library, by name. -/
abbrev LoadTable := Table String LoadStatus

end LayeredBundles
