/-! # Blank characters

* **`Text.isBlank`** — the characters with the Unicode property `White_Space`;
* **`Text.trim`** — text without blanks at its ends. -/

namespace LayeredBundles

namespace Text

/-- The ranges of `White_Space`, first and last code point. -/
def blankRanges : List (Nat × Nat) := [
  (0x9, 0xD), (0x20, 0x20), (0x85, 0x85), (0xA0, 0xA0), (0x1680, 0x1680), (0x2000, 0x200A),
  (0x2028, 0x2029), (0x202F, 0x202F), (0x205F, 0x205F), (0x3000, 0x3000)]

/-- Whether a character is blank. -/
def isBlank (c : Char) : Bool := blankRanges.any fun r => r.1 ≤ c.toNat && c.toNat ≤ r.2

/-- Characters without the blanks they begin with. -/
def trimStartChars (cs : List Char) : List Char := cs.dropWhile isBlank

/-- Characters without the blanks they begin or end with. -/
def trimChars (cs : List Char) : List Char :=
  (trimStartChars (trimStartChars cs).reverse).reverse

/-- Text without the blanks it begins or ends with. -/
def trim (s : String) : String := String.ofList (trimChars s.toList)

end Text

end LayeredBundles
