/-! # Media — bytes read by offset

A medium hands out pieces of its bytes by offset. A cursor is a position over a medium, moved by seeking
and by reading. The position is a word of 64 bits, and so is all that is computed with it: sums wrap, and
a seek looks at the carry to refuse what is out of range.

* **`Medium`** — bytes and how much of a request is granted;
* **`Medium.fetch`** — one read, possibly shorter than asked for;
* **`Medium.copyAt`** — one read of bytes in memory, step by step;
* **`Cursor`** — a position over a medium;
* **`Cursor.addSigned?`** — a word and a signed word, unless the sum is no word;
* **`Cursor.seek`** — move the position, or refuse;
* **`Cursor.read`** — read up to some count and move on.

`size_fetch` says how much one read yields, `size_fetch_le` that it is never more than asked for. -/

namespace LayeredBundles

/-! ## (1) Media -/

/-- A **medium**: its bytes, and for a read of some count at some offset the count that is granted.
Before the end of the bytes at least one byte is granted to a read that asks for any. -/
structure Medium where
  /-- The bytes. -/
  bytes : ByteArray
  /-- The count granted to a read of the given offset and count. -/
  grant : Nat → Nat → Nat
  /-- No more is granted than asked for. -/
  grant_le : ∀ offset count, grant offset count ≤ count
  /-- Something is granted before the end. -/
  grant_pos : ∀ offset count, offset < bytes.size → 0 < count → 0 < grant offset count

namespace Medium

/-- A medium in memory grants all that is asked for. -/
def ofBytes (d : ByteArray) : Medium :=
  ⟨d, fun _ count => count, fun _ _ => Nat.le_refl _, fun _ _ _ h => h⟩

/-- The number of bytes. -/
def size (s : Medium) : Nat := s.bytes.size

/-- One read: the granted piece at `offset`, empty at and past the end. -/
def fetch (s : Medium) (offset count : Nat) : ByteArray :=
  s.bytes.extract offset (offset + s.grant offset count)

/-- A medium over bytes has these. -/
@[simp] theorem bytes_ofBytes (d : ByteArray) : (ofBytes d).bytes = d := rfl

/-- It grants all that is asked for. -/
@[simp] theorem fetch_ofBytes (d : ByteArray) (offset count : Nat) :
    (ofBytes d).fetch offset count = d.extract offset (offset + count) := rfl

/-- A read yields as much as is granted, or all there is. -/
theorem size_fetch (s : Medium) (offset count : Nat) :
    (s.fetch offset count).size = min (s.grant offset count) (s.size - offset) := by
  simp [fetch, size, ByteArray.size_extract]; omega

/-- It yields no more than was asked for. -/
theorem size_fetch_le (s : Medium) (offset count : Nat) :
    (s.fetch offset count).size ≤ count := by
  have := s.grant_le offset count
  rw [size_fetch]; omega

/-! ## (2) Bytes in memory -/

/-- Where taking a piece of bytes in memory goes wrong. -/
inductive Stop where
  /-- At a sum or a difference that is no index. -/
  | wrapped
  /-- At an index outside. -/
  | outside
  deriving DecidableEq, Repr

/-- The piece of bytes in memory at `offset`, at most `count` of them, as a machine copies it whose indices go up to
`top`. An offset above `top` is taken for `top`. -/
def copyAt (top : Nat) (d : ByteArray) (offset : UInt64) (count : Nat) : Except Stop ByteArray := do
  let start := min (if offset.toNat ≤ top then offset.toNat else top) d.size
  let rest ← if start ≤ d.size then .ok (d.size - start) else .error .wrapped
  let taken := min count rest
  let stop ← if start + taken ≤ top then .ok (start + taken) else .error .wrapped
  if taken ≤ count ∧ start ≤ stop ∧ stop ≤ d.size then .ok (d.extract start stop) else .error .outside

end Medium

/-! ## (3) Cursors -/

/-- A **cursor**: a medium and a position in it, possibly past the end. -/
structure Cursor where
  /-- The medium. -/
  medium : Medium
  /-- The position, a word. -/
  place : UInt64

/-- Where a seek goes. -/
inductive Seek where
  /-- To an offset. -/
  | offset (offset : UInt64)
  /-- To a distance from the end. -/
  | beyondEnd (delta : Int64)
  /-- To a distance from the position. -/
  | onward (delta : Int64)
  deriving DecidableEq, Repr

namespace Seek

/-- The seek to an offset that is a word. -/
def start (n : Nat) : Seek := .offset (.ofNat n)

/-- The seek to a distance from the end that is a signed word. -/
def fromEnd (delta : Int) : Seek := .beyondEnd (.ofInt delta)

/-- The seek to a distance from the position that is a signed word. -/
def fromCurrent (delta : Int) : Seek := .onward (.ofInt delta)

end Seek

namespace Cursor

/-- A cursor at the beginning of a medium. -/
def new (s : Medium) : Cursor := ⟨s, 0⟩

/-- The position as a number. -/
def position (c : Cursor) : Nat := c.place.toNat

/-- A word and a signed word together, unless the sum is no word: added as words, the sum carries exactly when the
second is negative. -/
def addSigned? (a : UInt64) (delta : Int64) : Option UInt64 :=
  let sum := a + delta.toUInt64
  let carries := decide (sum < a)
  if carries ^^ decide (delta < 0) then none else some sum

/-- The word a seek aims at, if it is one. -/
def target? (c : Cursor) : Seek → Option UInt64
  | .offset offset => some offset
  | .beyondEnd delta => addSigned? (.ofNat c.medium.size) delta
  | .onward delta => addSigned? c.place delta

/-- Move to the target of a seek, if there is one. -/
def seek (c : Cursor) (s : Seek) : Option Cursor := (c.target? s).map fun place => { c with place }

/-- The text of a refused seek. -/
def seekRefused : String := "seek to a negative or overflowing position"

/-- Read up to `count` bytes and move past them. -/
def read (c : Cursor) (count : Nat) : ByteArray × Cursor :=
  let piece := c.medium.fetch c.position count
  (piece, { c with place := c.place + .ofNat piece.size })

/-- Read up to the end: as many bytes as are left, in reads as large as possible. -/
def readToEnd (c : Cursor) : ByteArray × Cursor :=
  let piece := c.medium.bytes.extract c.position c.medium.size
  (piece, { c with place := c.place + .ofNat piece.size })

end Cursor

end LayeredBundles
