/-! # Reading UTF-8 that may be damaged

Bytes are read one at a time. A byte that cannot continue the character at hand ends it, and each
such broken beginning is shown as one replacement character.

* **`Utf8.Pending`** — a character some of whose bytes are still to come;
* **`Utf8.lossy`** — the text of any bytes. -/

namespace LayeredBundles

namespace Utf8

/-- The character that stands for bytes that are no text. -/
def replacement : Char := '\ufffd'

/-- A character whose last `left` bytes are still to come, the next of them between `low` and
`high`; `code` holds the bits read so far. -/
structure Pending where
  /-- Bytes still to come. -/
  left : Nat
  /-- Least value of the next byte. -/
  low : Nat
  /-- Greatest value of the next byte. -/
  high : Nat
  /-- Bits read so far. -/
  code : Nat

/-- The first byte of a character: what it completes and what it leaves pending. -/
def first (b : Nat) : List Char × Option Pending :=
  if b < 0x80 then ([Char.ofNat b], none)
  else if b < 0xC2 then ([replacement], none)
  else if b < 0xE0 then ([], some ⟨1, 0x80, 0xBF, b - 0xC0⟩)
  else if b < 0xF0 then
    ([], some ⟨2, if b = 0xE0 then 0xA0 else 0x80, if b = 0xED then 0x9F else 0xBF, b - 0xE0⟩)
  else if b < 0xF5 then
    ([], some ⟨3, if b = 0xF0 then 0x90 else 0x80, if b = 0xF4 then 0x8F else 0xBF, b - 0xF0⟩)
  else ([replacement], none)

/-- One more byte. -/
def next (b : Nat) : Option Pending → List Char × Option Pending
  | none => first b
  | some p =>
    if p.low ≤ b ∧ b ≤ p.high then
      let code := 64 * p.code + (b - 0x80)
      if p.left ≤ 1 then ([Char.ofNat code], none)
      else ([], some ⟨p.left - 1, 0x80, 0xBF, code⟩)
    else
      let (cs, rest) := first b
      (replacement :: cs, rest)

/-- The characters of the bytes, given what is pending. -/
def chars : Option Pending → List UInt8 → List Char
  | none, [] => []
  | some _, [] => [replacement]
  | p, b :: bs =>
    let (cs, p) := next b.toNat p
    cs ++ chars p bs

/-- The text of the bytes; whatever is no text becomes replacement characters. -/
def lossy (bytes : ByteArray) : String := String.ofList (chars none bytes.toList)

end Utf8

end LayeredBundles
