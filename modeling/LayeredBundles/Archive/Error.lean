import LayeredBundles.Storage.FileError

/-! # Errors of an archive

* **`Damage`** — what is wrong with a bundle;
* **`BundleError`** — why an operation on a bundle fails. -/

namespace LayeredBundles

/-- What is wrong with a bundle. -/
inductive Damage where
  /-- It has no bytes. -/
  | empty
  /-- It has the form of no known container. -/
  | unknownFormat
  /-- A file ends after `copied` of its `size` bytes. -/
  | cut (path : String) (copied size : Nat)
  /-- The container is not well formed. -/
  | malformed (detail : String)
  deriving DecidableEq, Repr

/-- A damage in words. -/
def Damage.message : Damage → String
  | .empty => "empty bundle"
  | .unknownFormat => "unrecognized bundle format"
  | .cut path copied size =>
    path ++ ": truncated after " ++ toString copied ++ " of " ++ toString size ++ " bytes"
  | .malformed detail => detail

/-- Why an operation on a bundle fails. -/
inductive BundleError where
  /-- No entry has that path. -/
  | notFound (path : String)
  /-- Bytes were asked of a directory. -/
  | isDirectory (path : String)
  /-- Children were asked of a file. -/
  | notDirectory (path : String)
  /-- The bundle cannot be read. -/
  | corrupt (layer : String) (damage : Damage)
  /-- Bytes could not be read or written. -/
  | io (cause : IoError)
  deriving DecidableEq, Repr

/-- An error in words. -/
def BundleError.message : BundleError → String
  | .notFound path => "not found in archive: " ++ path
  | .isDirectory path => "is a directory: " ++ path
  | .notDirectory path => "not a directory: " ++ path
  | .corrupt layer damage => "corrupt archive " ++ layer ++ ": " ++ damage.message
  | .io cause => "I/O error: " ++ cause.message

end LayeredBundles
