/-! # Hexadecimal digits

* **`Hex.digit`** — the digit of a number below sixteen, lower case;
* **`Hex.value?`** — the number of a digit of either case;
* **`Hex.write`** — a number in base sixteen. -/

namespace LayeredBundles

namespace Hex

/-- The digit of a number below sixteen, lower case. -/
def digit (n : Nat) : Char := Char.ofNat (if n < 10 then 48 + n else 87 + n)

/-- The number of a digit of either case. -/
def value? (c : Char) : Option Nat :=
  if c.isDigit then some (c.toNat - 48)
  else if 'a' ≤ c ∧ c ≤ 'f' then some (c.toNat - 87)
  else if 'A' ≤ c ∧ c ≤ 'F' then some (c.toNat - 55)
  else none

/-- A number in base sixteen. -/
def write (n : Nat) : String := String.ofList (Nat.toDigits 16 n)

end Hex

end LayeredBundles
