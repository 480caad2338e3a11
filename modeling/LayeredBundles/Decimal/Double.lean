/-! # Doubles — 64-bit binary floating point by its bits

A **double** is kept as its 64 bits, so equality is decidable and every conversion is exact
arithmetic on natural numbers.

* **`Double.decode`** — a finite magnitude as `m · 2 ^ q`;
* **`Double.ofRatio`** — the double nearest to a ratio, ties to the even significand;
* **`Double.ofDecimal`** — the double nearest to `n · 10 ^ e`. -/

namespace LayeredBundles

/-- A **double**: sign, 11 bits of exponent and 52 bits of fraction, from the top. -/
structure Double where
  /-- The bits of the number. -/
  bits : UInt64
  deriving DecidableEq, Repr

namespace Double

/-- The weight of the sign bit. -/
def signWeight : Nat := 0x8000000000000000

/-- The leading bit of a significand, which the fraction leaves out. -/
def leadingBit : Nat := 0x10000000000000

/-- The first bit of the fraction. -/
def quietBit : Nat := 0x8000000000000

/-- A power of two. -/
def twoTo (n : Nat) : Nat := Nat.pow 2 n

/-- A power of ten. -/
def tenTo (n : Nat) : Nat := Nat.pow 10 n

/-- Whether the sign bit is set. -/
def isNegative (d : Double) : Bool := d.bits ≥ 0x8000000000000000

/-- The 63 bits below the sign, as a number. -/
def magnitude (d : Double) : Nat := d.bits.toNat % signWeight

/-- The eleven bits of the exponent. -/
def exponentField (d : Double) : Nat := d.magnitude / leadingBit

/-- The fifty-two bits of the fraction. -/
def fraction (d : Double) : Nat := d.magnitude % leadingBit

/-- Neither infinite nor not-a-number. -/
def isFinite (d : Double) : Bool := d.exponentField < 2047

/-- The significand `m` and exponent `q` of a finite magnitude `m · 2 ^ q`. -/
def decode (d : Double) : Nat × Int :=
  if d.exponentField = 0 then (d.fraction, -1074)
  else (leadingBit + d.fraction, (d.exponentField : Int) - 1075)

/-- A double from its sign and the bits below. -/
def ofMagnitude (negative : Bool) (magnitude : Nat) : Double :=
  ⟨UInt64.ofNat (if negative then signWeight + magnitude else magnitude)⟩

/-- The infinity of the given sign. -/
def infinity (negative : Bool) : Double := ofMagnitude negative (2047 * leadingBit)

/-- A number that is not a number. -/
def notANumber (negative : Bool) : Double := ofMagnitude negative (2047 * leadingBit + quietBit)

/-- `num / den` to the nearest natural number, ties to even. -/
def roundRatio (num den : Nat) : Nat :=
  let q := num / den
  let r := num % den
  if 2 * r < den then q
  else if 2 * r > den then q + 1
  else if q % 2 = 0 then q else q + 1

/-- `num / (den · 2 ^ q)` to the nearest natural number, ties to even. -/
def roundScaled (num den : Nat) (q : Int) : Nat :=
  if q ≥ 0 then roundRatio num (den * twoTo q.toNat) else roundRatio (num * twoTo (-q).toNat) den

/-- The greatest `q ≥ -1074` for which `num / (den · 2 ^ q)` still has 53 bits, if that is above
`-1074`. The estimate from the lengths is at most one too small. -/
def scaleOf (num den : Nat) : Int :=
  let estimate : Int := (num.log2 : Int) - (den.log2 : Int) - 53
  let reaches (q : Int) : Bool :=
    if q ≥ 0 then num ≥ den * leadingBit * twoTo q.toNat else num * twoTo (-q).toNat ≥ den * leadingBit
  let q := if reaches (estimate + 1) then estimate + 1 else estimate
  max q (-1074)

/-- The double of the given sign nearest to `num / den`, ties to the even significand; a ratio too
large for a finite double is infinite. -/
def ofRatio (negative : Bool) (num den : Nat) : Double :=
  if num = 0 then ofMagnitude negative 0
  else
    let q := scaleOf num den
    let m := roundScaled num den q
    -- a significand rounded up to 2 ^ 53 carries into the exponent by itself
    let magnitude := (q + 1074).toNat * leadingBit + m
    if magnitude ≥ 2047 * leadingBit then infinity negative else ofMagnitude negative magnitude

/-- The double of the given sign nearest to `n · 10 ^ e`. Exponents far outside the range of doubles
are settled by the count of digits, before any power is taken. -/
def ofDecimal (negative : Bool) (n : Nat) (e : Int) : Double :=
  if n = 0 then ofMagnitude negative 0
  else
    let top : Int := (Nat.toDigits 10 n).length + e
    if top > 400 then infinity negative
    -- below the least double by far
    else if top < -400 then ofMagnitude negative 0
    else if e ≥ 0 then ofRatio negative (n * tenTo e.toNat) 1
    else ofRatio negative n (tenTo (-e).toNat)

end Double

end LayeredBundles
