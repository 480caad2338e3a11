import LayeredBundles.Bytes.Word
import LayeredBundles.Text.Utf8

/-! # The libraries a shared binary needs

An ELF file names the libraries it depends on in its **dynamic table**, a list of tagged values that
ends at tag zero. Names are offsets into a string table.

* **`Elf.View`** — bytes read with the word size and byte order of the file;
* **`Elf.Header`**, **`Elf.Segment`** — what is used of the file header and the program headers;
* **`Elf.tableRows`** — the tagged values of a dynamic table;
* **`Elf.findTable`** — the dynamic table and its string table, through the program headers or, when
  the address of the string table lies in no loaded segment, through the section headers;
* **`Elf.needed`** — the names in order, without empty ones and repetitions.

Offsets are numbers below `2 ^ 64`; every sum and product that leaves that range is an error, and so
is every read that leaves the file. -/

namespace LayeredBundles

/-- Why a file has no readable dependency names. -/
inductive ElfFault where
  /-- Not an ELF file at all. -/
  | notElf
  /-- The file ends before what is read at that offset is complete. -/
  | truncated (offset : Nat)
  /-- The class byte is neither 1 nor 2. -/
  | unknownClass (value : Nat)
  /-- The byte-order byte is neither 1 nor 2. -/
  | unknownOrder (value : Nat)
  /-- A sum of offsets leaves the range of 64 bits. -/
  | offsetOverflow (base delta : Nat)
  /-- A product of a table index and the size of a row leaves the range of 64 bits. -/
  | indexOverflow (index : Nat)
  /-- The dynamic table does not say where its strings are. -/
  | noStringTable
  deriving DecidableEq, Repr

/-- The text of an error. -/
def ElfFault.message : ElfFault → String
  | .notElf => "not an ELF file"
  | .truncated o => "truncated at offset " ++ toString o
  | .unknownClass v => "malformed: unknown class " ++ toString v
  | .unknownOrder v => "malformed: unknown byte order " ++ toString v
  | .offsetOverflow b d => "malformed: offset 0x" ++ Hex.write b ++ " + 0x" ++ Hex.write d ++ " overflows"
  | .indexOverflow i => "malformed: table index " ++ toString i ++ " overflows"
  | .noStringTable => "malformed: dynamic table has no DT_STRTAB"

namespace Elf

/-- The result of reading. -/
abbrev Read (α : Type) := Except ElfFault α

/-- A sum of offsets. -/
def add (base delta : Nat) : Read Nat :=
  if base + delta < UInt64.size then .ok (base + delta) else .error (.offsetOverflow base delta)

/-- The offset of row `index` in a table at `base` with rows of `stride` bytes. -/
def elementAt (base index stride : Nat) : Read Nat :=
  if index * stride < UInt64.size then add base (index * stride) else .error (.indexOverflow index)

/-! ## (1) Reading fields -/

/-- The bytes of a file, its word size and its byte order. -/
structure View where
  /-- The bytes. -/
  data : ByteArray
  /-- Most significant byte first. -/
  bigEndian : Bool
  /-- Words of eight bytes rather than four. -/
  wide : Bool

namespace View

/-- The unsigned number of `width` bytes at `offset`. -/
def number (v : View) (width offset : Nat) : Read Nat :=
  match (if v.bigEndian then Bytes.big? v.data offset width else Bytes.little? v.data offset width) with
  | some n => .ok n
  | none => .error (.truncated offset)

/-- Bytes of a word. -/
def wordSize (v : View) : Nat := if v.wide then 8 else 4

/-- The word at `offset`. -/
def word (v : View) (offset : Nat) : Read Nat := v.number v.wordSize offset

/-- The bytes from `offset` up to the next zero byte, as text. -/
def text (v : View) (offset : Nat) : Read String :=
  if offset ≤ v.data.size then
    -- without a zero byte the text never ends
    let tail := (v.data.extract offset v.data.size).toList
    if tail.contains 0 then .ok (Utf8.lossy (Bytes.ofList (tail.takeWhile (· ≠ 0))))
    else .error (.truncated offset)
  else .error (.truncated offset)

end View

/-! ## (2) Headers -/

/-- What is used of the file header. -/
structure Header where
  /-- Offset of the program headers. -/
  segmentsAt : Nat
  /-- Offset of the section headers. -/
  sectionsAt : Nat
  /-- Size of a program header. -/
  segmentSize : Nat
  /-- Number of program headers. -/
  segmentCount : Nat
  /-- Size of a section header. -/
  sectionSize : Nat
  /-- Number of section headers. -/
  sectionCount : Nat

/-- The first four bytes of every ELF file. -/
def magic : ByteArray := Bytes.ofList [0x7f, 0x45, 0x4c, 0x46]

/-- The word size and byte order of a file. -/
def viewOf (d : ByteArray) : Read View :=
  if d.size < 16 || !Bytes.hasAt d 0 magic then .error .notElf
  else do
    let wide ← match (Bytes.byteAt d 4).toNat with
      | 1 => .ok false
      | 2 => .ok true
      | c => .error (.unknownClass c)
    let bigEndian ← match (Bytes.byteAt d 5).toNat with
      | 1 => .ok false
      | 2 => .ok true
      | c => .error (.unknownOrder c)
    return ⟨d, bigEndian, wide⟩

/-- The file header. -/
def header (v : View) : Read Header :=
  if v.wide then do
    let segmentsAt ← v.number 8 32
    let sectionsAt ← v.number 8 40
    let segmentSize ← v.number 2 54
    let segmentCount ← v.number 2 56
    let sectionSize ← v.number 2 58
    let sectionCount ← v.number 2 60
    return ⟨segmentsAt, sectionsAt, segmentSize, segmentCount, sectionSize, sectionCount⟩
  else do
    let segmentsAt ← v.number 4 28
    let sectionsAt ← v.number 4 32
    let segmentSize ← v.number 2 42
    let segmentCount ← v.number 2 44
    let sectionSize ← v.number 2 46
    let sectionCount ← v.number 2 48
    return ⟨segmentsAt, sectionsAt, segmentSize, segmentCount, sectionSize, sectionCount⟩

/-- What is used of a program header. -/
structure Segment where
  /-- What the segment is for: 1 loaded, 2 dynamic table. -/
  kind : Nat
  /-- Offset in the file. -/
  offset : Nat
  /-- Address in memory. -/
  address : Nat
  /-- Length in the file. -/
  size : Nat

/-- The kind of a loaded segment. -/
def loaded : Nat := 1

/-- The kind of the segment that holds the dynamic table. -/
def dynamic : Nat := 2

/-- The type of the section that holds the dynamic table. -/
def dynamicSection : Nat := 6

/-- The program header at `base`. -/
def segmentAt (v : View) (base : Nat) : Read Segment := do
  let kind ← v.number 4 base
  if v.wide then
    let offset ← v.number 8 (← add base 8)
    let address ← v.number 8 (← add base 16)
    let size ← v.number 8 (← add base 32)
    return ⟨kind, offset, address, size⟩
  else
    let offset ← v.number 4 (← add base 4)
    let address ← v.number 4 (← add base 8)
    let size ← v.number 4 (← add base 16)
    return ⟨kind, offset, address, size⟩

/-- All program headers. -/
def segments (v : View) (h : Header) : Read (List Segment) :=
  (List.range h.segmentCount).mapM fun i => do
    segmentAt v (← elementAt h.segmentsAt i h.segmentSize)

/-- The offset in the file of an address, through the first loaded segment that holds it. -/
def offsetOf? (segs : List Segment) (address : Nat) : Option Nat :=
  ((segs.filter (·.kind = loaded)).find? fun s =>
      s.address ≤ address && address - s.address < s.size).bind fun s =>
    if s.offset + (address - s.address) < UInt64.size then some (s.offset + (address - s.address)) else none

/-! ## (3) The dynamic table -/

/-- The tag of a needed library. -/
def neededTag : Nat := 1

/-- The tag of the address of the string table. -/
def stringTableTag : Nat := 5

/-- At most `rows` rows of tag and value from `offset` on, up to tag zero. -/
def rowsFrom (v : View) : Nat → Nat → Read (List (Nat × Nat))
  | 0, offset => do
    let _ ← add offset (2 * v.wordSize)
    return []
  | rows + 1, offset => do
    let tag ← v.word offset
    if tag = 0 then return []
    else
      -- behind tag zero there need not be a value
      let value ← v.word (← add offset v.wordSize)
      let rest ← rowsFrom v rows (← add offset (2 * v.wordSize))
      return (tag, value) :: rest

/-- The rows of a dynamic table of `size` bytes at `offset`, up to tag zero. -/
def tableRows (v : View) (offset size : Nat) : Read (List (Nat × Nat)) := do
  let _ ← add offset size
  rowsFrom v (size / (2 * v.wordSize)) offset

/-- The dynamic table of a segment and the address of its strings. -/
def segmentTable (v : View) (s : Segment) : Read (List (Nat × Nat) × Nat) := do
  let entries ← tableRows v s.offset s.size
  match entries.find? (·.1 = stringTableTag) with
  | some (_, address) => return (entries, address)
  | none => .error .noStringTable

/-- The dynamic table of the section whose header stands at `base`, and the offset of its strings. -/
def sectionTable (v : View) (h : Header) (base : Nat) : Read (List (Nat × Nat) × Nat) :=
  if v.wide then do
    let offset ← v.number 8 (← add base 24)
    let size ← v.number 8 (← add base 32)
    let link ← v.number 4 (← add base 40)
    let linked ← elementAt h.sectionsAt link h.sectionSize
    let strings ← v.number 8 (← add linked 24)
    return (← tableRows v offset size, strings)
  else do
    let offset ← v.number 4 (← add base 16)
    let size ← v.number 4 (← add base 20)
    let link ← v.number 4 (← add base 24)
    let linked ← elementAt h.sectionsAt link h.sectionSize
    let strings ← v.number 4 (← add linked 16)
    return (← tableRows v offset size, strings)

/-- The table of the first section of the dynamic type, from section `i` on, `count` sections at most. -/
def findSection (v : View) (h : Header) : Nat → Nat → Read (Option (List (Nat × Nat) × Nat))
  | 0, _ => return none
  | count + 1, i => do
    let base ← elementAt h.sectionsAt i h.sectionSize
    let type ← v.number 4 (← add base 4)
    if type = dynamicSection then return some (← sectionTable v h base)
    else findSection v h count (i + 1)

/-- The dynamic table and the offset of its strings; nothing for a file without one. -/
def findTable (v : View) (h : Header) : Read (Option (List (Nat × Nat) × Nat)) := do
  let segs ← segments v h
  match segs.find? (·.kind = dynamic) with
  | some s =>
    let (entries, address) ← segmentTable v s
    match offsetOf? segs address with
    | some strings => return some (entries, strings)
    -- no loaded segment holds the strings: the section headers say where they are
    | none => findSection v h h.sectionCount 0
  | none => findSection v h h.sectionCount 0

/-- The names of the needed libraries among the rows, in order. -/
def names (v : View) (strings : Nat) (entries : List (Nat × Nat)) : Read (List String) :=
  (entries.filter (·.1 = neededTag)).mapM fun e => do v.text (← add strings e.2)

/-- The list without empty names and without all but the first of equal names. -/
def distinct (ns : List String) : List String :=
  ns.foldl (fun found n => if n = "" || found.contains n then found else found ++ [n]) []

/-- The names of the libraries a file needs, in the order of their rows, each once. -/
def needed (d : ByteArray) : Read (List String) := do
  let v ← viewOf d
  let h ← header v
  match ← findTable v h with
  | none => return []
  | some (entries, strings) => return distinct (← names v strings entries)

end Elf

end LayeredBundles
