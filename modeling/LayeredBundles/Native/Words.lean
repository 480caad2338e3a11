import LayeredBundles.Native.Elf

/-! # The reader of shared binaries on machine words

The reader of `Elf` once more, as a machine runs it: on words of 64 bits, over bytes in memory. Sums and products of
offsets are asked for their overflow, pieces of the bytes for their bounds. What is not asked for stops the run where
it goes wrong: an index outside the bytes, and a difference below zero. The rows of a dynamic table are collected in a
loop that goes on while the next row ends inside the table.

* **`Elf.Words.Stop`** — why a run ends before its end;
* **`Elf.Words.collect`** — the loop over a dynamic table, with what it has collected however it ends;
* **`Elf.Words.needed`** — the names of the libraries a file needs.

Each pass of the loop reads a row inside the bytes (`end_le_of_row?`), so it ends. -/

namespace LayeredBundles

namespace Elf.Words

/-- Why a run ends before its end. -/
inductive Stop where
  /-- With an error of the reader. -/
  | fault (f : ElfFault)
  /-- At an index outside the bytes. -/
  | outside
  /-- At a difference below zero. -/
  | wrapped
  deriving DecidableEq, Repr

/-- The result of a run. -/
abbrev Run (α : Type) := Except Stop α

/-- The value there is, or an error of the reader. -/
def orFault {α : Type} (f : ElfFault) : Option α → Run α
  | some x => .ok x
  | none => .error (.fault f)

/-! ## (1) Words and bytes -/

/-- The sum of two words, unless it is too large. -/
def sum? (a b : UInt64) : Option UInt64 := if a.toNat + b.toNat < UInt64.size then some (a + b) else none

/-- The product of two words, unless it is too large. -/
def product? (a b : UInt64) : Option UInt64 := if a.toNat * b.toNat < UInt64.size then some (a * b) else none

/-- The difference of two words, which stops the run below zero. -/
def minus (a b : UInt64) : Run UInt64 := if b ≤ a then .ok (a - b) else .error .wrapped

/-- The byte at an index, which has to lie inside. -/
def byteAt (d : ByteArray) (i : Nat) : Run UInt8 := if h : i < d.size then .ok d[i] else .error .outside

/-- The first bytes, which have to be there. -/
def firstOf (d : ByteArray) (count : Nat) : Run ByteArray :=
  if count ≤ d.size then .ok (d.extract 0 count) else .error .outside

/-- The bytes between two offsets, if they lie inside. -/
def piece? (d : ByteArray) (start stop : UInt64) : Option ByteArray :=
  if start ≤ stop ∧ stop.toNat ≤ d.size then some (d.extract start.toNat stop.toNat) else none

/-- A sum of offsets. -/
def add (base delta : UInt64) : Run UInt64 := orFault (.offsetOverflow base.toNat delta.toNat) (sum? base delta)

/-- The offset of row `index` in a table at `base` with rows of `stride` bytes. -/
def elementAt (base index stride : UInt64) : Run UInt64 := do
  let delta ← orFault (.indexOverflow index.toNat) (product? index stride)
  add base delta

/-- The `width` bytes at `offset`. -/
def bytes (v : View) (width offset : UInt64) : Run ByteArray :=
  orFault (.truncated offset.toNat) ((sum? offset width).bind (piece? v.data offset))

/-- The number of some bytes in the byte order of the file. -/
def numberOf (v : View) (s : ByteArray) : UInt64 :=
  .ofNat (if v.bigEndian then Bytes.bigOf s.toList else Bytes.littleOf s.toList)

/-- The unsigned number of `width` bytes at `offset`. -/
def number (v : View) (width offset : UInt64) : Run UInt64 := (bytes v width offset).map (numberOf v)

/-- Bytes of a word of the file. -/
def wordSize (v : View) : UInt64 := if v.wide then 8 else 4

/-- Bytes of a row of a dynamic table. -/
def rowSize (v : View) : UInt64 := if v.wide then 16 else 8

/-- The word of the file at `offset`. -/
def word (v : View) (offset : UInt64) : Run UInt64 := number v (wordSize v) offset

/-- The bytes from `offset` up to the next zero byte, as text. -/
def text (v : View) (offset : UInt64) : Run String := do
  let tail ← orFault (.truncated offset.toNat)
    (if offset.toNat ≤ v.data.size then some (v.data.extract offset.toNat v.data.size) else none)
  let length ← orFault (.truncated offset.toNat) (tail.toList.findIdx? (· = 0))
  return Utf8.lossy (← firstOf tail length)

/-! ## (2) Headers -/

/-- What is used of the file header. -/
structure Header where
  /-- Offset of the program headers. -/
  segmentsAt : UInt64
  /-- Offset of the section headers. -/
  sectionsAt : UInt64
  /-- Size of a program header. -/
  segmentSize : UInt64
  /-- Number of program headers. -/
  segmentCount : UInt64
  /-- Size of a section header. -/
  sectionSize : UInt64
  /-- Number of section headers. -/
  sectionCount : UInt64

/-- What a byte of the identification chooses, of two. -/
def choice (unknown : Nat → ElfFault) (c : Nat) : Run Bool :=
  if c = 1 then .ok false
  else if c = 2 then .ok true
  else .error (.fault (unknown c))

/-- The word size and byte order of a file. -/
def viewOf (d : ByteArray) : Run View := do
  if d.size < 16 then .error (.fault .notElf)
  else
    let start ← firstOf d 4
    if !Bytes.same start magic then .error (.fault .notElf)
    else
      let wide ← choice .unknownClass (← byteAt d 4).toNat
      let bigEndian ← choice .unknownOrder (← byteAt d 5).toNat
      return ⟨d, bigEndian, wide⟩

/-- The file header. -/
def header (v : View) : Run Header :=
  if v.wide then do
    let segmentsAt ← number v 8 32
    let sectionsAt ← number v 8 40
    let segmentSize ← number v 2 54
    let segmentCount ← number v 2 56
    let sectionSize ← number v 2 58
    let sectionCount ← number v 2 60
    return ⟨segmentsAt, sectionsAt, segmentSize, segmentCount, sectionSize, sectionCount⟩
  else do
    let segmentsAt ← number v 4 28
    let sectionsAt ← number v 4 32
    let segmentSize ← number v 2 42
    let segmentCount ← number v 2 44
    let sectionSize ← number v 2 46
    let sectionCount ← number v 2 48
    return ⟨segmentsAt, sectionsAt, segmentSize, segmentCount, sectionSize, sectionCount⟩

/-- What is used of a program header. -/
structure Segment where
  /-- What the segment is for. -/
  kind : UInt64
  /-- Offset in the file. -/
  offset : UInt64
  /-- Address in memory. -/
  address : UInt64
  /-- Length in the file. -/
  size : UInt64

/-- The program header at `base`. -/
def segmentAt (v : View) (base : UInt64) : Run Segment := do
  let kind ← number v 4 base
  if v.wide then
    let offset ← number v 8 (← add base 8)
    let address ← number v 8 (← add base 16)
    let size ← number v 8 (← add base 32)
    return ⟨kind, offset, address, size⟩
  else
    let offset ← number v 4 (← add base 4)
    let address ← number v 4 (← add base 8)
    let size ← number v 4 (← add base 16)
    return ⟨kind, offset, address, size⟩

/-- All program headers. -/
def segments (v : View) (h : Header) : Run (List Segment) :=
  (List.range h.segmentCount.toNat).mapM fun i => do
    segmentAt v (← elementAt h.segmentsAt (.ofNat i) h.segmentSize)

/-- Whether a segment holds an address. The difference is only taken when it is not below zero. -/
def holds (s : Segment) (address : UInt64) : Run Bool :=
  if s.address ≤ address then do
    let inside ← minus address s.address
    return inside < s.size
  else return false

/-- The offset in the file of an address, through the first loaded segment that holds it. -/
def offsetOf? (address : UInt64) : List Segment → Run (Option UInt64)
  | [] => return none
  | s :: rest =>
    if s.kind.toNat = loaded then do
      if ← holds s address then
        let inside ← minus address s.address
        return sum? s.offset inside
      else offsetOf? address rest
    else offsetOf? address rest

/-! ## (3) The dynamic table -/

/-- The row at `pos`, unless the table ends before it does or it has tag zero. -/
def row? (v : View) (stop pos : UInt64) : Run (Option (UInt64 × UInt64)) := do
  if stop < (← add pos (rowSize v)) then return none
  else
    let tag ← word v pos
    if tag = 0 then return none
    else
      let value ← word v (← add pos (wordSize v))
      return some (tag, value)

/-- A number that was read lies within the bytes. -/
theorem end_le_of_number {v : View} {width offset n : UInt64} (h : number v width offset = .ok n) :
    offset.toNat + width.toNat ≤ v.data.size := by
  unfold number bytes sum? at h
  split at h
  · next hsum =>
    rw [Option.bind_some, piece?] at h
    split at h
    · next hpiece => rw [← Nat.mod_eq_of_lt hsum]; exact hpiece.2
    · cases h
  · cases h

/-- A sum that was reached is that of the numbers. -/
theorem add_eq_ok {a b c : UInt64} (h : add a b = .ok c) : c.toNat = a.toNat + b.toNat := by
  unfold add sum? at h
  split at h
  · next hsum =>
    cases h
    exact Nat.mod_eq_of_lt hsum
  · cases h

/-- A row is two words wide. -/
theorem rowSize_eq (v : View) : (rowSize v).toNat = 2 * (wordSize v).toNat := by
  unfold rowSize wordSize
  split <;> rfl

/-- A row that is read lies inside the bytes. -/
theorem end_le_of_row? {v : View} {stop pos : UInt64} {row : UInt64 × UInt64}
    (h : row? v stop pos = .ok (some row)) : pos.toNat + (rowSize v).toNat ≤ v.data.size := by
  unfold row? at h
  rcases hnext : add pos (rowSize v) with e | next <;> rw [hnext] at h
  · cases h
  simp only [bind, Except.bind] at h
  split at h
  · cases h
  rcases htag : word v pos with e | tag <;> rw [htag] at h
  · cases h
  simp only at h
  split at h
  · cases h
  rcases hat : add pos (wordSize v) with e | at' <;> rw [hat] at h
  · cases h
  simp only at h
  rcases hvalue : word v at' with e | value <;> rw [hvalue] at h
  · cases h
  have hend := end_le_of_number hvalue
  rw [add_eq_ok hat] at hend
  rw [rowSize_eq]
  omega

/-- The rows that are collected from `pos` on after some others, and how the loop ends. -/
def collect (v : View) (stop pos : UInt64) (rows : List (UInt64 × UInt64)) : List (UInt64 × UInt64) × Run Unit :=
  match _hrow : row? v stop pos with
  | .error e => (rows, .error e)
  | .ok none => (rows, .ok ())
  | .ok (some row) =>
    match _hnext : add pos (rowSize v) with
    | .error e => (rows ++ [row], .error e)
    | .ok next => collect v stop next (rows ++ [row])
termination_by v.data.size - pos.toNat
decreasing_by
  have hend := end_le_of_row? ‹row? v stop pos = .ok (some row)›
  have hpos := add_eq_ok ‹add pos (rowSize v) = .ok next›
  have hsize : 0 < (rowSize v).toNat := by
    unfold rowSize
    split <;> decide
  omega

/-- The rows of a dynamic table of `size` bytes at `offset`, up to tag zero. -/
def tableRows (v : View) (offset size : UInt64) : Run (List (UInt64 × UInt64)) := do
  let stop ← add offset size
  let (rows, ending) := collect v stop offset []
  ending
  return rows

/-- The dynamic table of a segment and the address of its strings. -/
def segmentTable (v : View) (s : Segment) : Run (List (UInt64 × UInt64) × UInt64) := do
  let rows ← tableRows v s.offset s.size
  let (_, address) ← orFault .noStringTable (rows.find? (·.1.toNat = stringTableTag))
  return (rows, address)

/-- The dynamic table of the section whose header stands at `base`, and the offset of its strings. -/
def sectionTable (v : View) (h : Header) (base : UInt64) : Run (List (UInt64 × UInt64) × UInt64) :=
  if v.wide then do
    let offset ← number v 8 (← add base 24)
    let size ← number v 8 (← add base 32)
    let link ← number v 4 (← add base 40)
    let linked ← elementAt h.sectionsAt link h.sectionSize
    let strings ← number v 8 (← add linked 24)
    return (← tableRows v offset size, strings)
  else do
    let offset ← number v 4 (← add base 16)
    let size ← number v 4 (← add base 20)
    let link ← number v 4 (← add base 24)
    let linked ← elementAt h.sectionsAt link h.sectionSize
    let strings ← number v 4 (← add linked 16)
    return (← tableRows v offset size, strings)

/-- The table of the first section of the dynamic type, from section `i` on, `count` sections at most. -/
def findSection (v : View) (h : Header) : Nat → Nat → Run (Option (List (UInt64 × UInt64) × UInt64))
  | 0, _ => return none
  | count + 1, i => do
    let base ← elementAt h.sectionsAt (.ofNat i) h.sectionSize
    let type ← number v 4 (← add base 4)
    if type.toNat = dynamicSection then return some (← sectionTable v h base)
    else findSection v h count (i + 1)

/-- The dynamic table and the offset of its strings; nothing for a file without one. -/
def findTable (v : View) (h : Header) : Run (Option (List (UInt64 × UInt64) × UInt64)) := do
  let segs ← segments v h
  match segs.find? (·.kind.toNat = dynamic) with
  | some s =>
    let (rows, address) ← segmentTable v s
    match ← offsetOf? address segs with
    | some strings => return some (rows, strings)
    | none => findSection v h h.sectionCount.toNat 0
  | none => findSection v h h.sectionCount.toNat 0

/-- The names of the needed libraries among the rows, in order. -/
def names (v : View) (strings : UInt64) (rows : List (UInt64 × UInt64)) : Run (List String) :=
  (rows.filter (·.1.toNat = neededTag)).mapM fun row => do text v (← add strings row.2)

/-- The names of the libraries a file needs, in the order of their rows, each once. -/
def needed (d : ByteArray) : Run (List String) := do
  let v ← viewOf d
  let h ← header v
  match ← findTable v h with
  | none => return []
  | some (rows, strings) => return distinct (← names v strings rows)

end Elf.Words

end LayeredBundles
