import LayeredBundles.Text.Split

/-! # Paths of the file system

A path is text with `/` between segments; a path that begins with `/` is absolute. Empty segments and `.`
segments are no components, except for one `.` at the beginning of a relative path.

* **`DiskPath.components`** — what a path consists of; paths with the same components are the same;
* **`DiskPath.join`** — a path below another one;
* **`DiskPath.parent?`**, **`DiskPath.fileName?`** — the path without its last component, and that
  component;
* **`DiskPath.lineage`** — a path and all that it stands below;
* **`DiskPath.isContained`** — whether a path cannot leave the directory it is joined to. -/

namespace LayeredBundles

namespace DiskPath

/-- A component of a path. -/
inductive Component where
  /-- The root of the file system. -/
  | root
  /-- A `.` at the beginning. -/
  | here
  /-- A step up. -/
  | up
  /-- A name. -/
  | name (s : String)
  deriving DecidableEq, Repr

/-- Whether a path begins at the root. -/
def isAbsolute (path : String) : Bool := Text.startsWith "/" path

/-- The segments of a path. -/
def segments (path : String) : List String := Text.split '/' path

/-- A segment that is a component. -/
def counts (s : String) : Bool := s ≠ "" && s ≠ "."

/-- The component of a segment that counts. -/
def component (s : String) : Component := if s = ".." then .up else .name s

/-- The components of a path. -/
def components (path : String) : List Component :=
  let rest := ((segments path).filter counts).map component
  if isAbsolute path then .root :: rest
  else if (segments path).head? = some "." then .here :: rest
  else rest

/-- The path without the slashes at its end. -/
def withoutSlashes (path : String) : String := Text.dropEndWhile (· = '/') path

/-- Whether two paths are the same. -/
def same (p q : String) : Bool := components p = components q

/-- The path of `path` seen from `base`: an absolute path stands by itself, and a slash is put between the
two where there is none. -/
def join (base path : String) : String :=
  if isAbsolute path then path
  else if base = "" || Text.endsWith "/" base then base ++ path
  else base ++ "/" ++ path

/-- The last component, when it is a name. -/
def fileName? (path : String) : Option String :=
  match (components path).getLast? with
  | some (.name s) => some s
  | _ => none

/-- Segments without those at the end that do not count. -/
def trimEnd (segs : List String) : List String := (segs.reverse.dropWhile (!counts ·)).reverse

/-- What a path begins with in front of its segments, and those segments. -/
def lead (path : String) : String × List String :=
  if isAbsolute path then ("/", (segments path).drop 1)
  else if (segments path).head? = some "." then (".", (segments path).drop 1)
  else ("", segments path)

/-- The path without its last component: the text in front of it, without a slash at the end. A path
without components, and the root alone, have none. -/
def parent? (path : String) : Option String :=
  let (start, segs) := lead path
  match (trimEnd segs).reverse with
  | [] => if start = "." then some "" else none
  | _ :: rev =>
    let front := trimEnd rev.reverse
    -- the point at the beginning is a component of its own
    if start = "." && !front.isEmpty then some ("./" ++ Text.join '/' front)
    else some (start ++ Text.join '/' front)

/-- A path, the path without its last component, and so on, at most `count` of them. -/
def lineageUpTo : Nat → String → List String
  | 0, _ => []
  | count + 1, path =>
    path :: match parent? path with
      | some front => lineageUpTo count front
      | none => []

/-- A path and all that it stands below, innermost first. Each is shorter than the one before it. -/
def lineage (path : String) : List String := lineageUpTo (path.length + 1) path

/-- Whether every component is a name and there is one at all: such a path cannot leave the directory it
is joined to. -/
def isContained (path : String) : Bool :=
  !(components path).isEmpty && (components path).all fun
    | .name _ => true
    | _ => false

end DiskPath

end LayeredBundles
