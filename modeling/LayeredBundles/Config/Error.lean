import LayeredBundles.Storage.FileError
import LayeredBundles.Text.Quoted

/-! # Errors of a configuration

* **`ConfigError`** — why a configuration is refused;
* **`ConfigError.message`** — the same in words. -/

namespace LayeredBundles

/-- The TOML values that a configuration cannot hold. -/
inductive Unsupported where
  /-- A date or a time. -/
  | datetime
  /-- An infinite number, or one that is no number. -/
  | nonFinite
  deriving DecidableEq, Repr

/-- The word for such a value. -/
def Unsupported.word : Unsupported → String
  | .datetime => "datetime"
  | .nonFinite => "non-finite float"

/-- Why a configuration is refused. -/
inductive ConfigError where
  /-- The file cannot be read. -/
  | unreadable (path : String) (cause : FileError)
  /-- The text is no TOML document. -/
  | notToml
  /-- A value cannot be used; `place` is its key path. -/
  | unsupported (place : String) (what : Unsupported)
  /-- The values do not have the form of a configuration. -/
  | badShape
  /-- The text is no build manifest. -/
  | badPackingList
  /-- The lock timeout is zero. -/
  | zeroTimeout
  /-- The package marker is empty, or holds a slash or a dot. -/
  | badMarker (marker : String)
  /-- A suffix is too short, does not begin with a dot, or holds a slash. -/
  | badSuffix (suffix : String)
  /-- A suffix occurs twice. -/
  | doubledSuffix (suffix : String)
  /-- A library directory is no path inside an archive. -/
  | badLibraryDir (dir : String)
  /-- A root has no extraction directory. -/
  | noExtractDir
  /-- Two roots have the same extraction directory. -/
  | sharedExtractDir (dir : String)
  /-- A layer has no name. -/
  | unnamedLayer (dir : String)
  /-- Two layers of a root have the same name. -/
  | doubledLayer (name dir : String)
  deriving DecidableEq, Repr

/-- The error in words. -/
def ConfigError.message : ConfigError → String
  | .unreadable path cause => path ++ ": " ++ cause.message
  | .notToml => "TOML parse error: not a TOML document"
  | .unsupported place what =>
    (if place = "" then "<root>" else place) ++ ": " ++ what.word ++ " values are not supported"
  | .badShape => "invalid configuration: not of the expected form"
  | .badPackingList => "build manifest: not of the expected form"
  | .zeroTimeout => "lock_timeout_ms must be positive"
  | .badMarker marker => "invalid package_marker " ++ Text.quoted marker
  | .badSuffix suffix => "invalid suffix " ++ Text.quoted suffix
  | .doubledSuffix suffix => "suffix " ++ Text.quoted suffix ++ " listed twice"
  | .badLibraryDir dir => "invalid native_lib_dirs entry " ++ Text.quoted dir
  | .noExtractDir => "root extract_dir must not be empty"
  | .sharedExtractDir dir => "extract_dir " ++ dir ++ " used by more than one root"
  | .unnamedLayer dir => "unnamed layer in root " ++ dir
  | .doubledLayer name dir => "layer " ++ Text.quoted name ++ " listed twice in root " ++ dir

end LayeredBundles
