import LayeredBundles.Archive.Entry
import LayeredBundles.Storage.Charset
import LayeredBundles.Storage.DiskPath
import LayeredBundles.Storage.FileError
import LayeredBundles.Table

/-! # Trees of files

A file tree binds places to directories, files and symbolic links. A **place** is the list of names that
lead to it from the root; the root itself is always a directory. A path is text, and is led to a place by
following its segments through the tree, links included.

* **`FileTree.node?`** — what stands at a place;
* **`FileTree.locate`** — the place a path leads to;
* **`FileTree.read`**, **`look`** — a file's bytes, and what stands at a path;
* **`FileTree.write`**, **`createDirectory`**, **`link`**, **`remove`**, **`removeDirectory`**,
  **`move`** — changes, each of them made whole or refused.

An operation that is refused changes nothing, which its type says. -/

namespace LayeredBundles

/-- Bytes are the same when their arrays are. This is how they are compared, whatever else is known of them. -/
instance (priority := high) decidableEqBytes : DecidableEq ByteArray := ByteArray.instDecidableEq

/-- The names that lead from the root to a place. -/
abbrev Place := List String

/-- What stands at a place. -/
inductive Node where
  /-- A directory. -/
  | directory
  /-- A file, with its contents and time of modification. -/
  | file (contents : ByteArray) (modified : Instant)
  /-- A symbolic link. -/
  | link (target : String)
  deriving DecidableEq

namespace Node

/-- Whether it is a directory. -/
def isDirectory : Node → Bool
  | .directory => true
  | _ => false

/-- Whether it is a file. -/
def isFile : Node → Bool
  | .file .. => true
  | _ => false

end Node

/-- A **file tree**: what stands at each place, and the place from which relative paths are followed. -/
structure FileTree where
  /-- What stands where; the root is not listed. -/
  nodes : Table Place Node
  /-- Where relative paths begin. -/
  base : Place

namespace FileTree

/-- A tree with nothing but the root. -/
def empty : FileTree := ⟨[], []⟩

/-- What stands at a place. -/
def node? (t : FileTree) (p : Place) : Option Node :=
  if p = [] then some .directory else Table.find? t.nodes p

/-- Put a node at a place. -/
def bind (t : FileTree) (p : Place) (n : Node) : FileTree :=
  { t with nodes := Table.insert p n t.nodes }

/-- Take away what stands at a place. -/
def unbind (t : FileTree) (p : Place) : FileTree := { t with nodes := Table.erase p t.nodes }

/-- Whether `p` is strictly below `top`. -/
def isBelow (top p : Place) : Bool := top.isPrefixOf p && p ≠ top

/-- Take away everything strictly below a place. -/
def unbindBelow (t : FileTree) (top : Place) : FileTree :=
  { t with nodes := t.nodes.filter fun n => !isBelow top n.1 }

/-- The root is a directory. -/
@[simp] theorem node?_root (t : FileTree) : t.node? [] = some .directory := by simp [node?]

/-- What stands after something was put at a place. -/
theorem node?_bind (t : FileTree) {p : Place} (hp : p ≠ []) (n : Node) (q : Place) :
    (t.bind p n).node? q = if q = p then some n else t.node? q := by
  by_cases hq : q = []
  · subst hq; simp [hp.symm]
  · simp [node?, hq, bind, Table.find?_insert]

/-- What stands after something was taken away. -/
theorem node?_unbind (t : FileTree) {p : Place} (hp : p ≠ []) (q : Place) :
    (t.unbind p).node? q = if q = p then none else t.node? q := by
  by_cases hq : q = []
  · subst hq; simp [hp.symm]
  · simp [node?, hq, unbind, Table.find?_erase]

/-- What stands after all below a place was taken away. -/
theorem node?_unbindBelow (t : FileTree) (top q : Place) (hq : q ≠ []) :
    (t.unbindBelow top).node? q = if isBelow top q then none else t.node? q := by
  have := Table.find?_filter (fun p => !isBelow top p) t.nodes q
  simp only [node?, hq, ↓reduceIte, unbindBelow, this]
  cases isBelow top q <;> simp

/-! ## (1) Following paths -/

/-- The greatest length of a name, in bytes. -/
def maxName : Nat := 255

/-- The length, in bytes, from which on a path is too long. -/
def maxPath : Nat := 4096

/-- The number of links that may be followed on the way. -/
def maxLinks : Nat := 40

/-- Where following the segments of a path ends. -/
inductive Arrival where
  /-- At a place. With `slash`, nothing stands there and a slash follows the last name. -/
  | place (p : Place) (slash : Bool)
  /-- At a link: the segments of its target and the rest are to be followed from a place. -/
  | detour (start : Place) (segs : List String)

variable [Charset]

/-- Follow segments from a directory up to the first link. The last segment's own link counts only with
`through`. -/
def follow (t : FileTree) (through : Bool) : Place → List String → Except FileError Arrival
  | dir, [] => .ok (.place dir false)
  | dir, s :: rest =>
    if !DiskPath.counts s then follow t through dir rest
    else if s = ".." then follow t through dir.dropLast rest
    else if maxName < Charset.size s then .error .invalidName
    else
      let p := dir ++ [s]
      match t.node? p with
      | some .directory => follow t through p rest
      | some (.file ..) => if rest.isEmpty then .ok (.place p false) else .error .notADirectory
      | some (.link target) =>
        -- a link in the middle of a path is always followed
        if rest.isEmpty && !through then .ok (.place p false)
        else
          .ok (.detour (if DiskPath.isAbsolute target then [] else dir) (DiskPath.segments target ++ rest))
      -- what is missing may be named at the end only, slashes after it aside
      | none => if rest.all (· = "") then .ok (.place p (!rest.isEmpty)) else .error .notFound

/-- Follow segments from a directory, and up to `links` links. -/
def followLinks (t : FileTree) (through : Bool) :
    Nat → Place → List String → Except FileError (Place × Bool)
  | links, dir, segs =>
    match follow t through dir segs with
    | .error e => .error e
    | .ok (.place p slash) => .ok (p, slash)
    | .ok (.detour start segs) =>
      match links with
      | 0 => .error .linkLoop
      | links + 1 => followLinks t through links start segs

/-- The place a path leads to, and whether a slash follows the name of what is not there. -/
def locate (t : FileTree) (through : Bool) (path : String) : Except FileError (Place × Bool) :=
  if path = "" then .error .notFound
  else if Text.hasChar (Char.ofNat 0) path then .error .invalidPath
  else if maxPath ≤ Charset.size path then .error .invalidName
  else
    t.followLinks through maxLinks (if DiskPath.isAbsolute path then [] else t.base)
      (DiskPath.segments path)

/-! ## (2) Looking -/

/-- What stands at a path. With `through`, a link at the end is followed. -/
def look (t : FileTree) (through : Bool) (path : String) : Except FileError Node :=
  match t.locate through path with
  | .error e => .error e
  | .ok (p, _) =>
    match t.node? p with
    | some n => .ok n
    | none => .error .notFound

/-- Whether something stands at a path, links followed. -/
def has (t : FileTree) (path : String) : Bool := (t.look true path).isOk

/-- Whether a directory stands at a path, links followed. -/
def hasDirectory (t : FileTree) (path : String) : Bool :=
  match t.look true path with
  | .ok n => n.isDirectory
  | .error _ => false

/-- The bytes of the file at a path. -/
def read (t : FileTree) (path : String) : Except FileError ByteArray :=
  match t.look true path with
  | .error e => .error e
  | .ok (.file contents _) => .ok contents
  | .ok .directory => .error .isADirectory
  | .ok (.link _) => .error .linkLoop

/-- The text of the file at a path. -/
def readText (t : FileTree) (path : String) : Except FileError String :=
  match t.read path with
  | .error e => .error e
  | .ok d =>
    match String.fromUTF8? d with
    | some s => .ok s
    | none => .error .invalidText

/-- All that stands strictly below a place, every directory before what it holds, in the order of names. -/
def listBelow (t : FileTree) (top : Place) : List (Place × Node) := t.nodes.filter fun n => isBelow top n.1

/-! ## (3) Changing -/

/-- A path without the slashes at its end, for what is to be created there. -/
def bare (path : String) : String :=
  if path ≠ "" ∧ DiskPath.withoutSlashes path = "" then "/" else DiskPath.withoutSlashes path

/-- The place of a file that is to be opened or created, with what stands there. A path that ends in a
slash is that of a directory. -/
def locateFile (t : FileTree) (path : String) : Except FileError (Place × Option Node) :=
  if Text.endsWith "/" path then
    match t.locate false (bare path) with
    | .error e => .error e
    | .ok _ => .error .isADirectory
  else
    match t.locate true path with
    | .error e => .error e
    | .ok (p, slash) =>
      match t.node? p with
      | some .directory => .error .isADirectory
      | some (.link _) => .error .linkLoop
      | some n => .ok (p, some n)
      | none => if slash then .error .isADirectory else .ok (p, none)

/-- Create a file, or replace the contents of the file at that path. -/
def write (t : FileTree) (path : String) (contents : ByteArray) (modified : Instant) :
    Except FileError FileTree :=
  match t.locateFile path with
  | .error e => .error e
  | .ok (p, _) => .ok (t.bind p (.file contents modified))

/-- Create an empty file unless a file is there already; its place. -/
def ensureFile (t : FileTree) (path : String) (modified : Instant) : Except FileError (Place × FileTree) :=
  match t.locateFile path with
  | .error e => .error e
  | .ok (p, some _) => .ok (p, t)
  | .ok (p, none) => .ok (p, t.bind p (.file ByteArray.empty modified))

/-- Give the file at a path a time of modification. -/
def stamp (t : FileTree) (path : String) (modified : Instant) : Except FileError FileTree :=
  match t.locate true path with
  | .error e => .error e
  | .ok (p, _) =>
    match t.node? p with
    | some (.file contents _) => .ok (t.bind p (.file contents modified))
    | some .directory => .error .isADirectory
    | some (.link _) => .error .linkLoop
    | none => .error .notFound

/-- Create a directory. -/
def createDirectory (t : FileTree) (path : String) : Except FileError FileTree :=
  match t.locate false (bare path) with
  | .error e => .error e
  | .ok (p, _) =>
    match t.node? p with
    | some _ => .error .alreadyExists
    | none => .ok (t.bind p .directory)

/-- Create a symbolic link. -/
def link (t : FileTree) (target path : String) : Except FileError FileTree :=
  match t.locate false (bare path) with
  | .error e => .error e
  | .ok (p, _) =>
    match t.node? p with
    | some _ => .error .alreadyExists
    | none => if Text.endsWith "/" path then .error .notFound else .ok (t.bind p (.link target))

/-- Remove a file or a link. -/
def remove (t : FileTree) (path : String) : Except FileError FileTree :=
  match t.locate false path with
  | .error e => .error e
  | .ok (p, _) =>
    match t.node? p with
    | none => .error .notFound
    | some .directory => .error .isADirectory
    | some _ => .ok (t.unbind p)

/-- Remove an empty directory. It has to be named by its own name. -/
def removeDirectory (t : FileTree) (path : String) : Except FileError FileTree :=
  match t.locate false (bare path) with
  | .error e => .error e
  | .ok (p, _) =>
    match t.node? p with
    | none => .error .notFound
    | some .directory =>
      match (DiskPath.segments (bare path)).getLast? with
      | some "." => .error .dotEnding
      | some ".." => .error .directoryNotEmpty
      | _ =>
        if p = [] then .error .busy
        else if (t.listBelow p).isEmpty then .ok (t.unbind p)
        else .error .directoryNotEmpty
    | some _ => .error .notADirectory

/-- Move a file or a link to another path, in place of the file or link there. -/
def move (t : FileTree) (source target : String) : Except FileError FileTree :=
  match t.locate false source with
  | .error e => .error e
  | .ok (p, _) =>
    match t.node? p with
    | none => .error .notFound
    | some .directory => .error .isADirectory
    | some n =>
      match t.locate false target with
      | .error e => .error e
      | .ok (q, _) =>
        if Text.endsWith "/" target then .error .notADirectory
        else
          match t.node? q with
          | some .directory => .error .isADirectory
          -- onto itself it changes nothing that can be looked up
          | _ => .ok ((t.unbind p).bind q n)

end FileTree

end LayeredBundles
