import LayeredBundles.Text.Hex

/-! # Numbers and pieces inside bytes

* **`Bytes.byteAt`** — a byte of given index;
* **`Bytes.slice?`** — a piece of given offset and length, when it lies inside;
* **`Bytes.little?`**, **`Bytes.big?`** — an unsigned number of given offset and width;
* **`Bytes.ofLittle`** — a number as bytes, least significant first;
* **`Bytes.ofHex?`**, **`Bytes.toHex`** — bytes as pairs of hexadecimal digits. -/

namespace LayeredBundles

namespace Bytes

/-- The byte at an index, zero past the end. -/
def byteAt (d : ByteArray) (i : Nat) : UInt8 := if h : i < d.size then d[i] else 0

/-- The `count` bytes at `offset`, when all of them lie inside. -/
def slice? (d : ByteArray) (offset count : Nat) : Option ByteArray :=
  if offset + count ≤ d.size then some (d.extract offset (offset + count)) else none

/-- Whether two byte strings are the same. -/
def same (a b : ByteArray) : Bool := a.data = b.data

/-- Bytes are the same if they are equal. -/
@[simp] theorem same_iff {a b : ByteArray} : same a b = true ↔ a = b := by
  simp [same, ByteArray.ext_iff]

/-- The number of some bytes, least significant first. -/
def littleOf : List UInt8 → Nat
  | [] => 0
  | b :: bs => b.toNat + 256 * littleOf bs

/-- The number of some bytes, most significant first. -/
def bigOf (bs : List UInt8) : Nat := bs.foldl (fun n b => 256 * n + b.toNat) 0

/-- The number of `width` bytes at `offset`, least significant first. -/
def little? (d : ByteArray) (offset width : Nat) : Option Nat :=
  (slice? d offset width).map fun s => littleOf s.toList

/-- The number of `width` bytes at `offset`, most significant first. -/
def big? (d : ByteArray) (offset width : Nat) : Option Nat :=
  (slice? d offset width).map fun s => bigOf s.toList

/-- The lowest `width` bytes of a number, least significant first. -/
def littleList : Nat → Nat → List UInt8
  | 0, _ => []
  | width + 1, n => UInt8.ofNat n :: littleList width (n / 256)

/-- The lowest `width` bytes of a number, least significant first. -/
def ofLittle (width n : Nat) : ByteArray := ⟨(littleList width n).toArray⟩

/-- The lowest `width` bytes of an integer in two's complement, least significant first. -/
def ofLittleInt (width : Nat) (n : Int) : ByteArray := ofLittle width (n % (Nat.pow 256 width : Nat)).toNat

/-- A list of bytes. -/
def ofList (bs : List UInt8) : ByteArray := ⟨bs.toArray⟩

/-- `count` zero bytes. -/
def zeros (count : Nat) : ByteArray := ⟨Array.replicate count 0⟩

/-- The pieces one after another. -/
def concat (pieces : List ByteArray) : ByteArray := pieces.foldl (· ++ ·) ByteArray.empty

/-- Whether `piece` stands at `offset`. -/
def hasAt (d : ByteArray) (offset : Nat) (piece : ByteArray) : Bool :=
  (slice? d offset piece.size).any (same piece)

/-! ## (1) Hexadecimal digits -/

/-- The bytes as pairs of hexadecimal digits. -/
def toHex (d : ByteArray) : String :=
  String.ofList (d.toList.flatMap fun b => [Hex.digit (b.toNat / 16), Hex.digit (b.toNat % 16)])

/-- The bytes of pairs of hexadecimal digits. -/
def hexList? : List Char → Option (List UInt8)
  | [] => some []
  | [_] => none
  | a :: b :: rest => do
    let x ← Hex.value? a
    let y ← Hex.value? b
    let bs ← hexList? rest
    return UInt8.ofNat (16 * x + y) :: bs

/-- The bytes of pairs of hexadecimal digits. -/
def ofHex? (s : String) : Option ByteArray := (hexList? s.toList).map ofList

end Bytes

end LayeredBundles
