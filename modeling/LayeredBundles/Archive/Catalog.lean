import LayeredBundles.Table
import LayeredBundles.Archive.Entry

/-! # The catalog of an archive

A catalog knows every file and directory of an archive by its path in normal form. The directories
above an entry exist even when the archive does not list them. Beside the entries, the names right below
each directory are kept, so that a directory is listed without a search.

* **`Catalog.insert`** — add an entry and the directories above it;
* **`Catalog.get?`**, **`isDirectory`**, **`isFile`** — look a path up, in any spelling;
* **`Catalog.children?`** — the names right below a directory;
* **`Catalog.descendants`** — all entries below a directory, in path order. -/

namespace LayeredBundles

/-- A set of names in ascending order. -/
abbrev NameSet : Type := Table String Unit

/-- The entries of an archive by path in normal form. The root has no entry. -/
structure Catalog where
  /-- Entries in path order. -/
  entries : Table String Entry
  /-- The names right below each directory, the root among them. -/
  names : Table String NameSet

namespace Catalog

/-- A catalog without entries: the root has no names below it. -/
def empty : Catalog := ⟨[], [("", [])]⟩

/-- Whether a file stands at a path in normal form. -/
def fileAt (t : Table String Entry) (path : String) : Bool :=
  match Table.find? t path with
  | some e => !e.isDir
  | none => false

/-- Add the directory `path`, recorded at time zero, unless something stands there. -/
def implyDirectory (t : Table String Entry) (path : String) : Table String Entry :=
  if Table.contains t path then t else Table.insert path (Entry.directory path 0) t

/-- Have a set of names for the directory `path`, without names unless it is there already. -/
def openNames (t : Table String NameSet) (path : String) : Table String NameSet :=
  Table.insert path ((Table.find? t path).getD []) t

/-- Name `path` in the directory that holds it. -/
def addName (t : Table String NameSet) (path : String) : Table String NameSet :=
  let dir := ArchivePath.parent path
  Table.insert dir (Table.insert (ArchivePath.name path) () ((Table.find? t dir).getD [])) t

/-- Have names for the directory `path`, and name it in the directory that holds it. -/
def addDirectory (t : Table String NameSet) (path : String) : Table String NameSet :=
  addName (openNames t path) path

/-- Add an entry under its normal form, and the directories above it. A later entry replaces an
earlier one of the same path, except that a directory never replaces a file; the root is left out. -/
def insert (c : Catalog) (e : Entry) : Catalog :=
  let path := ArchivePath.normalize e.path
  if path = "" then c
  else if e.isDir && fileAt c.entries path then c
  else
    let above := ArchivePath.ancestors path
    let names := above.foldl addDirectory c.names
    ⟨Table.insert path { e with path := path } (above.foldl implyDirectory c.entries),
      if e.isDir then addDirectory names path else addName names path⟩

/-- The catalog of a sequence of entries. -/
def ofList (es : List Entry) : Catalog := es.foldl insert empty

/-- The entry of a path. -/
def get? (c : Catalog) (path : String) : Option Entry :=
  Table.find? c.entries (ArchivePath.normalize path)

/-- Whether the path is the root or a directory. -/
def isDirectory (c : Catalog) (path : String) : Bool :=
  ArchivePath.normalize path = "" || (c.get? path).any (·.isDir)

/-- Whether the path is a file. -/
def isFile (c : Catalog) (path : String) : Bool := (c.get? path).any (!·.isDir)

/-- The names right below a directory, ascending; nothing when the path is no directory. -/
def children? (c : Catalog) (path : String) : Option (List String) :=
  if c.isDirectory path then (Table.find? c.names (ArchivePath.normalize path)).map Table.keys else none

/-- All entries, in path order. -/
def toList (c : Catalog) : List Entry := Table.values c.entries

/-- The entries strictly below a directory, in path order: from the first path that can begin so on, up to the first
one that does not. -/
def descendants (c : Catalog) (dir : String) : List Entry :=
  let start := ArchivePath.below (ArchivePath.normalize dir)
  Table.values ((Table.startingAt start c.entries).takeWhile fun p => Text.startsWith start p.1)

/-- The number of entries. -/
def size (c : Catalog) : Nat := c.entries.length

end Catalog

end LayeredBundles
