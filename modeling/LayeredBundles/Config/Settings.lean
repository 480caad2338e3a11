import LayeredBundles.Config.FromToml
import LayeredBundles.Config.PackingList
import LayeredBundles.Json.Overlay
import LayeredBundles.Storage.DiskPath
import LayeredBundles.Toml.Document
import LayeredBundles.Layout

/-! # Settings

* **`Settings`** — roots, layout and limits;
* **`Settings.builtin`** — the values that stand when nothing else is given;
* **`Settings.check`** — what the form of the values does not say;
* **`Settings.ofLayers`**, **`Settings.parse`** — settings from JSON values laid over each other, and from
  a TOML document laid over the built-in values;
* **`Settings.seenFrom`** — relative paths seen from a directory;
* **`Settings.withPacking`** — add what the packing step wrote down. -/

namespace LayeredBundles

/-- A layer of a root. -/
structure LayerSettings where
  /-- The name of the layer. -/
  name : String
  /-- The file of the bundle. -/
  path : String
  /-- The token that tells builds apart, if it is given. -/
  token : Option String
  deriving DecidableEq, Repr

/-- A search root. -/
structure RootSettings where
  /-- The extraction directory. -/
  extractDir : String
  /-- Top-level packages whose source has to stand on disk. -/
  extractPackages : List String
  /-- The layers, in order of priority. -/
  layers : List LayerSettings
  deriving DecidableEq, Repr

/-- All settings. -/
structure Settings where
  /-- The roots, in order of priority. -/
  roots : List RootSettings
  /-- Marker and suffixes of units. -/
  layout : Layout
  /-- Directories inside each layer in which bundled libraries stand. -/
  libraryDirs : List String
  /-- How long to wait for the lock of an extraction directory, in milliseconds. -/
  lockTimeout : Nat
  /-- The file that keeps build records, if there is one. -/
  recordFile : Option String
  deriving DecidableEq, Repr

namespace Settings

/-- The library directory in use when none is given. -/
def standardLibraryDir : String := "lib"

/-- The lock timeout in use when none is given, in milliseconds. -/
def standardTimeout : Nat := 30000

/-- Settings when nothing is given. -/
def standard : Settings := ⟨[], Layout.standard, [standardLibraryDir], standardTimeout, none⟩

/-! ## (1) Settings and JSON -/

/-- A value without a member for what is not there. -/
def layerToJson (l : LayerSettings) : Json :=
  .object ([("name", .string l.name), ("path", .string l.path)]
    ++ (l.token.map fun t => ("token", Json.string t)).toList)

/-- A root as JSON. -/
def rootToJson (r : RootSettings) : Json :=
  .object [("extract_dir", .string r.extractDir), ("extract_packages", .strings r.extractPackages),
    ("layers", .array (r.layers.map layerToJson))]

/-- The suffixes of a layout as JSON. -/
def suffixesToJson (l : Layout) : Json :=
  .object [("bytecode", .strings l.bytecode), ("source", .strings l.source),
    ("native", .strings l.native)]

/-- Settings as JSON. -/
def toJson (s : Settings) : Json :=
  .object [("roots", .array (s.roots.map rootToJson)), ("suffixes", suffixesToJson s.layout),
    ("package_marker", .string s.layout.packageMarker), ("native_lib_dirs", .strings s.libraryDirs),
    ("lock_timeout_ms", .nat s.lockTimeout),
    ("identity_store", match s.recordFile with
      | some path => .string path
      | none => .null)]

/-- The built-in values, over which all others are laid. -/
def builtin : Json := standard.toJson.canonical

/-- A layer from JSON. -/
def layerOfJson? (v : Json) : Option LayerSettings := do
  match ← v.fields? ["name", "path", "token"] with
  | [name, path, token] =>
    return ⟨← name.required Json.asString, ← path.required Json.asString,
      ← token.orElse (Json.nullable Json.asString) none⟩
  | _ => none

/-- A root from JSON. -/
def rootOfJson? (v : Json) : Option RootSettings := do
  match ← v.fields? ["extract_dir", "extract_packages", "layers"] with
  | [extractDir, extractPackages, layers] =>
    let strings := Json.asList Json.asString
    return ⟨← extractDir.required Json.asString, ← extractPackages.orElse strings [],
      ← layers.orElse (Json.asList layerOfJson?) []⟩
  | _ => none

/-- A layout of the given marker, from the JSON of its suffixes. -/
def layoutOfJson? (marker : String) (v : Json) : Option Layout := do
  match ← v.fields? ["bytecode", "source", "native"] with
  | [bytecode, source, native] =>
    let strings := Json.asList Json.asString
    return ⟨marker, ← bytecode.required strings, ← source.required strings,
      ← native.required strings⟩
  | _ => none

/-- Settings from JSON. -/
def ofJson? (v : Json) : Option Settings := do
  match ← v.fields? ["roots", "suffixes", "package_marker", "native_lib_dirs", "lock_timeout_ms",
    "identity_store"] with
  | [roots, suffixes, marker, libraryDirs, lockTimeout, recordFile] =>
    let roots ← roots.required (Json.asList rootOfJson?)
    let marker ← marker.required Json.asString
    let layout ← suffixes.required (layoutOfJson? marker)
    return ⟨roots, layout, ← libraryDirs.required (Json.asList Json.asString),
      ← lockTimeout.required (Json.asNat UInt64.size), ← recordFile.optional Json.asString⟩
  | _ => none

/-! ## (2) Validation -/

/-- Whether a marker can name a file. -/
def isMarker (marker : String) : Bool :=
  marker ≠ "" && !Text.hasChar '/' marker && !Text.hasChar '\\' marker && !Text.hasChar '.' marker

/-- Whether a suffix can end a file name: a dot and something after it, and no slash. -/
def isSuffix (suffix : String) : Bool :=
  2 ≤ suffix.utf8ByteSize && Text.startsWith "." suffix && !Text.hasChar '/' suffix

/-- The first thing wrong with a list of suffixes, `seen` being those before it. -/
def checkSuffixes (seen : List String) : List String → Except ConfigError Unit
  | [] => .ok ()
  | s :: rest =>
    if !isSuffix s then .error (.badSuffix s)
    else if seen.contains s then .error (.doubledSuffix s)
    else checkSuffixes (s :: seen) rest

/-- The first thing wrong with a list of library directories. -/
def checkLibraryDirs : List String → Except ConfigError Unit
  | [] => .ok ()
  | d :: rest => if DiskPath.isContained d then checkLibraryDirs rest else .error (.badLibraryDir d)

/-- The first thing wrong with the names of the layers of a root. -/
def checkLayers (dir : String) (seen : List String) : List LayerSettings → Except ConfigError Unit
  | [] => .ok ()
  | l :: rest =>
    if l.name = "" then .error (.unnamedLayer dir)
    else if seen.contains l.name then .error (.doubledLayer l.name dir)
    else checkLayers dir (l.name :: seen) rest

/-- The first thing wrong with a list of roots, `seen` being the directories of those before it. -/
def checkRoots (seen : List String) : List RootSettings → Except ConfigError Unit
  | [] => .ok ()
  | r :: rest => do
    if r.extractDir = "" then .error .noExtractDir
    else if seen.any (DiskPath.same r.extractDir) then .error (.sharedExtractDir r.extractDir)
    else
      checkLayers r.extractDir [] r.layers
      checkRoots (r.extractDir :: seen) rest

/-- What the form of the values does not say; the first thing wrong is the error. -/
def check (s : Settings) : Except ConfigError Unit := do
  if s.lockTimeout = 0 then .error .zeroTimeout
  else if !isMarker s.layout.packageMarker then .error (.badMarker s.layout.packageMarker)
  else
    checkSuffixes [] (s.layout.bytecode ++ s.layout.source ++ s.layout.native)
    checkLibraryDirs s.libraryDirs
    checkRoots [] s.roots

/-! ## (3) Where settings come from -/

/-- Settings from JSON values laid over each other in turn. -/
def ofLayers (layers : List Json) : Except ConfigError Settings :=
  match ofJson? (Json.overlayAll layers) with
  | none => .error .badShape
  | some s => do
    s.check
    return s

/-- Settings from a TOML document, laid over the built-in values. -/
def parse (document : String) : Except ConfigError Settings :=
  match Toml.parse? document with
  | none => .error .notToml
  | some v => do ofLayers [builtin, ← v.toJson]

/-- A path seen from a directory, if it is relative. -/
def pathFrom (base path : String) : String :=
  if DiskPath.isAbsolute path then path else DiskPath.join base path

/-- All relative paths seen from a directory. -/
def seenFrom (base : String) (s : Settings) : Settings :=
  { s with
    roots := s.roots.map fun r =>
      { r with
        extractDir := pathFrom base r.extractDir
        layers := r.layers.map fun l => { l with path := pathFrom base l.path } }
    recordFile := s.recordFile.map (pathFrom base) }

/-- The list with those of `more` that it does not hold yet. -/
def addMissing (known : List String) (more : List String) : List String :=
  more.foldl (fun known p => if known.contains p then known else known ++ [p]) known

/-- Give every layer without a token that of the manifest, and add the packages of the manifest to every
root. -/
def withPacking (m : PackingList) (s : Settings) : Settings :=
  { s with
    roots := s.roots.map fun r =>
      { r with
        layers := r.layers.map fun l =>
          { l with token := l.token.orElse fun _ => Table.find? m.assets l.name }
        extractPackages := addMissing r.extractPackages m.extractPackages } }

end Settings

end LayeredBundles
