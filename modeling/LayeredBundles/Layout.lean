import LayeredBundles.Archive.Path

/-! # Importable units and how they are laid out

A dotted name such as `a.b` is held by an archive as a **package** (a directory with a marker file) or
as a **module** (a file), in one of three kinds.

* **`Kind`**, **`Form`** — the kinds and forms, each in order of priority;
* **`Layout`** — the marker and the suffixes of each kind;
* **`Layout.pathFor`** — the path that would hold a name in a form with a suffix;
* **`Layout.kindAndStem?`** — kind and stem of a file name;
* **`UnitName.isValid`** — which dotted names can be looked up. -/

namespace LayeredBundles

/-- What a unit consists of. -/
inductive Kind where
  /-- Compiled code, used from the archive. -/
  | bytecode
  /-- Source text, used from the archive unless its package asks for a copy on disk. -/
  | source
  /-- A shared binary, which has to stand on disk. -/
  | native
  deriving DecidableEq, Repr

namespace Kind

/-- The kinds, highest priority first. -/
def all : List Kind := [.bytecode, .source, .native]

/-- Whether a copy on disk is needed before use. -/
def needsArtifact : Kind → Bool
  | .native => true
  | _ => false

/-- Whether the unit is used from the archive. -/
def usedInPlace (k : Kind) : Bool := !k.needsArtifact

/-- The word for the kind. -/
def word : Kind → String
  | .bytecode => "bytecode"
  | .source => "source"
  | .native => "native"

end Kind

/-- How a unit stands in the archive. -/
inductive Form where
  /-- A directory with a marker file. -/
  | package
  /-- A file of its own. -/
  | module
  deriving DecidableEq, Repr

namespace Form

/-- The forms, highest priority first: a package hides a module of the same name. -/
def all : List Form := [.package, .module]

/-- The word for the form. -/
def word : Form → String
  | .package => "package"
  | .module => "module"

end Form

/-- How dotted names map to paths. -/
structure Layout where
  /-- Stem of the file that makes its directory a package. -/
  packageMarker : String
  /-- Suffixes of compiled code, highest priority first. -/
  bytecode : List String
  /-- Suffixes of source text, highest priority first. -/
  source : List String
  /-- Suffixes of shared binaries, highest priority first. -/
  native : List String
  deriving DecidableEq, Repr

namespace Layout

/-- The layout in use when none is given. -/
def standard : Layout := ⟨"__init__", [".pyc"], [".py"], [".so"]⟩

/-- The suffixes of a kind, highest priority first. -/
def suffixes (l : Layout) : Kind → List String
  | .bytecode => l.bytecode
  | .source => l.source
  | .native => l.native

/-- The path that would hold the unit at `path` in the given form with the given suffix. -/
def pathFor (l : Layout) (path : String) : Form → String → String
  | .package, suffix => path ++ "/" ++ l.packageMarker ++ suffix
  | .module, suffix => path ++ suffix

/-- Kind and stem of an importable file name: the first suffix, in order of priority, that leaves a
stem. Nothing for a data file. -/
def kindAndStem? (l : Layout) (fileName : String) : Option (Kind × String) :=
  Kind.all.findSome? fun kind =>
    (l.suffixes kind).findSome? fun suffix =>
      ((Text.dropEnd? suffix fileName).filter (· ≠ "")).map fun stem => (kind, stem)

/-- Whether a file name is that of a unit. -/
def isUnitFile (l : Layout) (fileName : String) : Bool := (l.kindAndStem? fileName).isSome

/-- The names of marker files of every kind, highest priority first. -/
def markers (l : Layout) : List String :=
  Kind.all.flatMap fun kind => (l.suffixes kind).map fun suffix => l.packageMarker ++ suffix

end Layout

namespace UnitName

/-- The segments of a dotted name. -/
def segments (name : String) : List String := Text.split '.' name

/-- A segment can be looked up when it is not empty and holds no slash of either kind. -/
def isSegment (s : String) : Bool := s ≠ "" && !Text.hasChar '/' s && !Text.hasChar '\\' s

/-- Whether a dotted name can be looked up. -/
def isValid (name : String) : Bool := (segments name).all isSegment

/-- The path of a dotted name. -/
def path (name : String) : String := Text.join '/' (segments name)

/-- The first segment of a dotted name. -/
def topLevel (name : String) : String := Text.beforeFirst '.' name

end UnitName

end LayeredBundles
