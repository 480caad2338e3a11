import LayeredBundles.Archive.Error
import LayeredBundles.Archive.Catalog
import LayeredBundles.Archive.Medium
import LayeredBundles.Archive.Tar
import LayeredBundles.Archive.Zip
import LayeredBundles.Bytes.Deflate
import LayeredBundles.Bytes.Sha256

/-! # Layers

A **layer** is a bundle that has been opened: a container whose members are known and catalogued. All
questions about what is where are answered by the catalog; only reading goes back to the bytes.

* **`Format.detect?`** — the format of a container by its first bytes;
* **`Layer.ofMedium`** — open a container;
* **`Layer.entry`**, **`Layer.childrenOf`** — look a path up;
* **`Layer.writeOut`**, **`Layer.contents`** — the bytes of a file, handed on as they come;
* **`Layer.read`** — the same bytes as a whole, in room that is asked for beforehand;
* **`Layer.digest`** — a digest of everything that is listed. -/

namespace LayeredBundles

/-- The format of a container. -/
inductive Format where
  /-- Zip. -/
  | zip
  /-- Tar. -/
  | tar
  deriving DecidableEq, Repr

namespace Format

/-- The word for a format. -/
def word : Format → String
  | .zip => "zip"
  | .tar => "tar"

/-- Offset of the mark in the first header of a tar container. -/
def tarMarkOffset : Nat := 257

/-- The format of a container: a zip container begins with a local header or an end record, a tar
container has a mark in its first header. -/
def detect? (s : Medium) : Option Format :=
  let start := s.fetch 0 4
  if [Zip.localMark, Zip.endMark].any fun mark => Bytes.same start (Bytes.ofLittle 4 mark) then
    some .zip
  else if Bytes.same (s.fetch tarMarkOffset 5) "ustar".toUTF8 then some .tar
  else none

end Format

/-- An open bundle. -/
structure Layer where
  /-- The name by which the layer is known. -/
  name : String
  /-- The format of the container. -/
  format : Format
  /-- The bytes of the container. -/
  medium : Medium
  /-- The members, in container order. -/
  members : List Member
  /-- The catalog of the members. -/
  catalog : Catalog
  /-- The catalog is that of the members. -/
  catalog_eq : catalog = Catalog.ofList (members.map (·.entry))

namespace Layer

/-! ## (1) Opening -/

/-- The members of a container of the given format. -/
def membersOf (name : String) (d : ByteArray) : Format → Except BundleError (List Member)
  | .zip =>
    match Zip.members d with
    | .ok ms => .ok ms
    -- a read past the end is a failure of reading, not of form
    | .error .cutEndRecord => .error (.io .damaged)
    | .error e => .error (.corrupt name (.malformed e.message))
  | .tar =>
    match Tar.members d with
    | .ok ms => .ok ms
    | .error e => .error (.corrupt name (.malformed e.message))

/-- Open a container under a name. -/
def ofMedium (name : String) (s : Medium) : Except BundleError Layer :=
  if s.size = 0 then .error (.corrupt name .empty)
  else
    match Format.detect? s with
    | none => .error (.corrupt name .unknownFormat)
    | some format =>
      match membersOf name s.bytes format with
      | .error e => .error e
      | .ok members =>
        .ok ⟨name, format, s, members, Catalog.ofList (members.map (·.entry)), rfl⟩

/-- Open bytes in memory. -/
def ofBytes (name : String) (d : ByteArray) : Except BundleError Layer :=
  Layer.ofMedium name (Medium.ofBytes d)

/-- The same layer under another name. -/
def withName (l : Layer) (name : String) : Layer := { l with name }

/-! ## (2) Looking up -/

/-- Whether the path is the root or a directory. -/
def isDirectory (l : Layer) (path : String) : Bool := l.catalog.isDirectory path

/-- Whether the path is a file. -/
def isFile (l : Layer) (path : String) : Bool := l.catalog.isFile path

/-- The entry of a path. -/
def entry (l : Layer) (path : String) : Except BundleError Entry :=
  match l.catalog.get? path with
  | some e => .ok e
  | none => .error (.notFound (ArchivePath.normalize path))

/-- All entries in path order, implied directories too. -/
def entries (l : Layer) : List Entry := l.catalog.toList

/-- The names right below a directory, ascending. -/
def childrenOf (l : Layer) (path : String) : Except BundleError (List String) :=
  match l.catalog.children? path with
  | some names => .ok names
  | none =>
    if l.isFile path then .error (.notDirectory (ArchivePath.normalize path))
    else .error (.notFound (ArchivePath.normalize path))

/-- The entry of a file that can be read: the root and directories are refused. -/
def readable (l : Layer) (path : String) : Except BundleError Entry :=
  if ArchivePath.normalize path = "" then .error (.isDirectory "")
  else
    match l.entry path with
    | .error e => .error e
    | .ok e => if e.isDir then .error (.isDirectory e.path) else .ok e

/-! ## (3) Reading -/

/-- Bytes handed on at once. -/
def chunk : Nat := 65536

/-- The run of `length` bytes at `offset`, after `done` of them, in reads of at most `limit` bytes. The
second part is the count at which the medium ended too early. -/
def copyRun (s : Medium) (offset length limit : Nat) (out : ByteArray) (done : Nat) :
    ByteArray × Option Nat :=
  if done < length then
    let piece := s.fetch (offset + done) (min limit (length - done))
    if piece.size = 0 then (out, some done)
    else copyRun s offset length limit (out ++ piece) (done + piece.size)
  else (out, none)
termination_by length - done
decreasing_by
  change length - (done + piece.size) < length - done
  omega

/-- The bytes of a run, and what is wrong with it: the container may end early. -/
def copySpan (s : Medium) (path : String) (offset length : Nat) : ByteArray × Option Damage :=
  let (out, ended) := copyRun s offset length (max (min chunk length) 1) ByteArray.empty 0
  (out, ended.map fun copied => .cut path copied length)

/-- Unpack bytes: nothing is known of their number, but their check value has to be right. -/
def unpack (packing : Packing) (d : ByteArray) (checksum : UInt32) : ByteArray × Option IoError :=
  let (out, ending) := match packing with
    | .deflated => Deflate.inflate d
    | _ => (d, .complete)
  (out, if ending = .damaged || Crc32.ofBytes out ≠ checksum then some .damaged else none)

/-- The bytes of a body: what could be written, and how it ended. -/
def copyBody (l : Layer) (path : String) : Body → ByteArray × Except BundleError Nat
  | .none => (ByteArray.empty, .error (.notFound path))
  | .span offset length =>
    match copySpan l.medium path offset length with
    | (out, none) => (out, .ok out.size)
    | (out, some damage) => (out, .error (.corrupt l.name damage))
  | .packed .unsupported _ _ _ =>
    (ByteArray.empty, .error (.corrupt l.name (.malformed "packing not supported")))
  | .packed packing offset length checksum =>
    match unpack packing (l.medium.bytes.extract offset (offset + length)) checksum with
    | (out, none) => (out, .ok out.size)
    | (out, some cause) => (out, .error (.io cause))

/-- The last file among the members with that path, in normal form. -/
def lastFile? (l : Layer) (path : String) : Option Member :=
  l.members.reverse.find? fun m => m.entry.path = path && !m.entry.isDir

/-- Write out the file at a path: what could be written, and the number of bytes or the error. -/
def writeOut (l : Layer) (path : String) : ByteArray × Except BundleError Nat :=
  match l.readable path with
  | .error e => (ByteArray.empty, .error e)
  | .ok e =>
    match l.lastFile? e.path with
    | none => (ByteArray.empty, .error (.notFound e.path))
    | some m => l.copyBody e.path m.body

/-- The bytes of the file at a path: all that is written out, if that comes to its end. -/
def contents (l : Layer) (path : String) : Except BundleError ByteArray :=
  match l.writeOut path with
  | (out, .ok _) => .ok out
  | (_, .error e) => .error e

/-- Where reading stops short, with neither bytes nor an error. -/
inductive Stop where
  /-- At room for more bytes than any piece of memory holds. -/
  | noRoom
  deriving DecidableEq, Repr

/-- The most bytes that a piece of memory holds. -/
def maxRoom : Nat := 0x7FFFFFFFFFFFFFFF

/-- Ask for room for some bytes. -/
def reserve (size : Nat) : Except Stop Unit := if size ≤ maxRoom then .ok () else .error .noRoom

/-- Read the file at a path as a whole. Room is asked for first, as much as the entry says; how many bytes there are is
known only later. -/
def read (l : Layer) (path : String) : Except Stop (Except BundleError ByteArray) :=
  match l.readable path with
  | .error e => .ok (.error e)
  | .ok e => do
    reserve e.size
    return l.contents path

/-! ## (4) The digest -/

/-- A listed member as bytes: path, a zero byte, whether it is a directory, size, time and checksum. -/
def listed (m : Member) : ByteArray :=
  m.entry.path.toUTF8 ++ Bytes.ofList [0, if m.entry.isDir then 1 else 0]
    ++ Bytes.ofLittle 8 m.entry.size ++ Bytes.ofLittleInt 8 m.entry.timestamp
    ++ Bytes.ofLittle 4 (m.checksum.getD 0).toNat

/-- The members by path; those of one path stay in container order. -/
def sortedMembers (l : Layer) : List Member :=
  l.members.mergeSort fun a b => decide (a.entry.path ≤ b.entry.path)

/-- A digest of all that is listed, without reading any file. -/
def digest (l : Layer) : String :=
  Bytes.toHex (Sha256.hash (Bytes.concat (l.sortedMembers.map listed)))

end Layer

end LayeredBundles
