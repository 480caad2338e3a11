import LayeredBundles.Archive.Error
import LayeredBundles.Config.Error
import LayeredBundles.Build.Store
import LayeredBundles.Native.Needed
import LayeredBundles.Storage.Lock
import LayeredBundles.Layout

/-! # Errors of an import

* **`BrokenReason`** — why a layer is not open;
* **`ImportFailure`** — why an import fails, with `ImportFailure.message`;
* **`ImportFailure.ofArchive`**, **`ofStore`** — errors of an archive and of a store, seen from an
  import. -/

namespace LayeredBundles

/-- Why a layer is not open. -/
inductive BrokenReason where
  /-- For a reason that was given. -/
  | stated (reason : String)
  /-- Because its file could not be opened. -/
  | opening (cause : BundleError)
  deriving DecidableEq, Repr

/-- A reason in words. -/
def BrokenReason.message : BrokenReason → String
  | .stated reason => reason
  | .opening cause => cause.message

/-- Why an import fails. -/
inductive ImportFailure where
  /-- There is nothing of that name. -/
  | notFound (name : String)
  /-- A directory stands where a file is needed. -/
  | directory (path : String)
  /-- The path leads out of the extraction directory. -/
  | accessDenied (path : String)
  /-- A layer of the root is not open. -/
  | corruptArchive (root layer : String) (reason : BrokenReason)
  /-- The unit is of another kind than needed. -/
  | wrongKind (name : String) (actual expected : Kind)
  /-- The host refused to load the file. -/
  | loadFailed (path reason : String)
  /-- The archive cannot be used. -/
  | archive (cause : BundleError)
  /-- What the file needs cannot be told. -/
  | native (cause : NeedsFailure)
  /-- The lock of the extraction directory was not taken. -/
  | lock (cause : LockFailure)
  /-- The path of the store of build records has no file name. -/
  | store (path : String)
  /-- The configuration is refused. -/
  | config (cause : ConfigError)
  /-- Bytes could not be read or written. -/
  | io (cause : IoError)
  deriving DecidableEq, Repr

namespace ImportFailure

/-- The error in words. -/
def message : ImportFailure → String
  | .notFound name => "not found: " ++ name
  | .directory path => "is a directory: " ++ path
  | .accessDenied path => "access denied: " ++ path ++ " is outside the extraction directory"
  | .corruptArchive root layer reason =>
    "corrupt archive " ++ layer ++ " in " ++ root ++ ": " ++ reason.message
  | .wrongKind name actual expected =>
    name ++ " is a " ++ actual.word ++ " unit, expected " ++ expected.word
  | .loadFailed path reason => "failed to load " ++ path ++ ": " ++ reason
  | .archive cause => "archive error: " ++ cause.message
  | .native cause => "native dependency error: " ++ cause.message
  | .lock cause => "extraction lock error: " ++ cause.message
  | .store path => "identity store error: not a file path: " ++ path
  | .config cause => "configuration error: " ++ cause.message
  | .io cause => "I/O error: " ++ cause.message

/-- An error of an archive. What is not there, directories and failed reads are those of the import. -/
def ofArchive : BundleError → ImportFailure
  | .notFound path => .notFound path
  | .isDirectory path => .directory path
  | .io cause => .io cause
  | e => .archive e

/-- An error of a store of build records. -/
def ofStore : StoreError → ImportFailure
  | .notAFile path => .store path
  | .io cause => .io (.refused cause)

/-- A refusal of the file system. -/
def ofFile (e : FileError) : ImportFailure := .io (.refused e)

end ImportFailure

end LayeredBundles
