import LayeredBundles.Native.Elf

/-! # The least binary that needs libraries

A binary with nothing in it but what its reader looks for: a file header, one loaded segment that is the whole file, the
segment of the dynamic table, the strings and the table itself. The strings are found through their address.

* **`Elf.Piece`** — bytes and the offset they stand at;
* **`Elf.overwrite`** — a piece written over what stands there;
* **`Elf.Plan`** — word size, byte order, address and names; from these, where everything stands and what it says;
* **`Elf.Plan.image`** — the file: zeros, and all pieces written over them. -/

namespace LayeredBundles

namespace Elf

/-- Bytes and the offset they stand at. -/
structure Piece where
  /-- The offset of the first byte. -/
  offset : Nat
  /-- The bytes. -/
  bytes : ByteArray

/-- A piece written over what stands there. -/
def overwrite (d : ByteArray) (p : Piece) : ByteArray :=
  d.extract 0 p.offset ++ p.bytes ++ d.extract (p.offset + p.bytes.size) d.size

/-- What a binary is made from. -/
structure Plan where
  /-- Words of eight bytes rather than four. -/
  wide : Bool
  /-- Most significant byte first. -/
  bigEndian : Bool
  /-- The address at which the file is loaded. -/
  base : Nat
  /-- The names of the needed libraries. -/
  names : List String

/-! ## (1) Strings -/

/-- Names one after another, with a zero byte behind each. -/
def strings (ns : List String) : List UInt8 := ns.flatMap fun n => n.toUTF8.toList ++ [0]

/-- Where each of the names begins, when the first one begins at that offset. -/
def nameOffsets : Nat → List String → List Nat
  | _, [] => []
  | o, n :: ns => o :: nameOffsets (o + n.toUTF8.size + 1) ns

namespace Plan

/-- The string table: an empty string, then the names. -/
def stringTable (p : Plan) : ByteArray := Bytes.ofList (0 :: strings p.names)

/-! ## (2) Where everything stands -/

/-- Bytes of a word. -/
def wordSize (p : Plan) : Nat := if p.wide then 8 else 4

/-- Bytes of the file header. -/
def headerSize (p : Plan) : Nat := if p.wide then 64 else 52

/-- Bytes of a program header. -/
def segmentSize (p : Plan) : Nat := if p.wide then 56 else 32

/-- Offset of the strings. -/
def stringsAt (p : Plan) : Nat := p.headerSize + 2 * p.segmentSize

/-- Offset of the dynamic table, a multiple of eight. -/
def tableAt (p : Plan) : Nat := (p.stringsAt + p.stringTable.size + 7) / 8 * 8

/-- The rows of the dynamic table: one for each name, the address of the strings, and the end. -/
def rows (p : Plan) : List (Nat × Nat) :=
  (nameOffsets 1 p.names).map (neededTag, ·) ++ [(stringTableTag, p.base + p.stringsAt), (0, 0)]

/-- Bytes of the dynamic table. -/
def tableSize (p : Plan) : Nat := p.rows.length * (2 * p.wordSize)

/-- Bytes of the file. -/
def size (p : Plan) : Nat := p.tableAt + p.tableSize

/-! ## (3) What it says -/

/-- The number `n` in `width` bytes. -/
def field (p : Plan) (offset width n : Nat) : Piece :=
  ⟨offset, Bytes.ofList (if p.bigEndian then (Bytes.littleList width n).reverse else Bytes.littleList width n)⟩

/-- The beginning of the file: the mark, the word size, the byte order and the version. -/
def identity (p : Plan) : List Piece :=
  [⟨0, magic⟩, ⟨4, Bytes.ofList [if p.wide then 2 else 1]⟩, ⟨5, Bytes.ofList [if p.bigEndian then 2 else 1]⟩,
    ⟨6, Bytes.ofList [1]⟩]

/-- The fields of the file header: where the program headers are, how long one is, and that there are two. -/
def headerFields (p : Plan) : List Piece :=
  if p.wide then [p.field 32 8 p.headerSize, p.field 54 2 p.segmentSize, p.field 56 2 2]
  else [p.field 28 4 p.headerSize, p.field 42 2 p.segmentSize, p.field 44 2 2]

/-- The fields of the program header at `base`. -/
def segmentFields (p : Plan) (base : Nat) (s : Segment) : List Piece :=
  if p.wide then
    [p.field base 4 s.kind, p.field (base + 8) 8 s.offset, p.field (base + 16) 8 s.address,
      p.field (base + 32) 8 s.size]
  else
    [p.field base 4 s.kind, p.field (base + 4) 4 s.offset, p.field (base + 8) 4 s.address,
      p.field (base + 16) 4 s.size]

/-- The loaded segment: all of the file. -/
def loadedSegment (p : Plan) : Segment := ⟨loaded, 0, p.base, p.size⟩

/-- The segment of the dynamic table. -/
def dynamicSegment (p : Plan) : Segment := ⟨dynamic, p.tableAt, p.base + p.tableAt, p.tableSize⟩

/-- The fields of rows, the first of which stands at `offset`. -/
def rowFields (p : Plan) : Nat → List (Nat × Nat) → List Piece
  | _, [] => []
  | offset, (tag, value) :: rest =>
    p.field offset p.wordSize tag :: p.field (offset + p.wordSize) p.wordSize value ::
      p.rowFields (offset + 2 * p.wordSize) rest

/-- All pieces of the file, in ascending order. -/
def pieces (p : Plan) : List Piece :=
  p.identity ++ (p.headerFields ++ (p.segmentFields p.headerSize p.loadedSegment ++
    (p.segmentFields (p.headerSize + p.segmentSize) p.dynamicSegment ++
      (⟨p.stringsAt, p.stringTable⟩ :: p.rowFields p.tableAt p.rows))))

/-- The file. -/
def image (p : Plan) : ByteArray := p.pieces.foldl overwrite (Bytes.zeros p.size)

end Plan

end Elf

end LayeredBundles
