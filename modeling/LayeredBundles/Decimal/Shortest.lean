import LayeredBundles.Decimal.Double

/-! # The shortest decimal of a double

Of all decimals that round to a given double, the one with the fewest digits is written; of those,
the nearest one.

* **`Double.Interval`** — the decimals that round to a double;
* **`Double.shortest`** — the digits and the place of the point;
* **`FloatFormat`** — where positional notation ends and how an exponent is written;
* **`FloatFormat.write`** — the text of a finite double. -/

namespace LayeredBundles

namespace Double

/-- The rationals that round to a magnitude: between `low / scale` and `high / scale`, both ends
counting when `closed`. -/
structure Interval where
  /-- The value itself, in units of `1 / scale`. -/
  value : Nat
  /-- The lower end. -/
  low : Nat
  /-- The upper end. -/
  high : Nat
  /-- The common denominator. -/
  scale : Nat
  /-- Whether the ends round to the magnitude too: they do when the significand is even. -/
  closed : Bool

/-- The interval of `m · 2 ^ q`. Below a power of two the neighbours are twice as close. -/
def intervalOf (m : Nat) (q : Int) : Interval :=
  let unit : Nat := if q ≥ 0 then twoTo q.toNat else 1
  let scale : Nat := 4 * (if q ≥ 0 then 1 else twoTo (-q).toNat)
  let below : Nat := if m = leadingBit ∧ q > -1074 then 1 else 2
  ⟨4 * m * unit, (4 * m - below) * unit, (4 * m + 2) * unit, scale, m % 2 = 0⟩

/-- Whether `d · 10 ^ k` lies in the interval. -/
def Interval.holds (i : Interval) (d : Nat) (k : Int) : Bool :=
  let lhs := if k ≥ 0 then d * tenTo k.toNat * i.scale else d * i.scale
  let factor := if k ≥ 0 then 1 else tenTo (-k).toNat
  if i.closed then i.low * factor ≤ lhs && lhs ≤ i.high * factor
  else i.low * factor < lhs && lhs < i.high * factor

/-- The point of the grid `10 ^ k` at or below the value. -/
def Interval.floorAt (i : Interval) (k : Int) : Nat :=
  if k ≥ 0 then i.value / (i.scale * tenTo k.toNat) else i.value * tenTo (-k).toNat / i.scale

/-- Whether the value is nearer to `(d + 1) · 10 ^ k` than to `d · 10 ^ k`; a tie goes to the even
one. -/
def Interval.nearerAbove (i : Interval) (d : Nat) (k : Int) : Bool :=
  let twice := if k ≥ 0 then 2 * i.value else 2 * i.value * tenTo (-k).toNat
  let middle := (2 * d + 1) * i.scale * (if k ≥ 0 then tenTo k.toNat else 1)
  twice > middle || (twice = middle && d % 2 = 1)

/-- The best point of the grid `10 ^ k` in the interval, if there is one. -/
def Interval.pick? (i : Interval) (k : Int) : Option Nat :=
  let d := i.floorAt k
  match i.holds d k && d ≠ 0, i.holds (d + 1) k with
  | true, true => some (if i.nearerAbove d k then d + 1 else d)
  | true, false => some d
  | false, true => some (d + 1)
  | false, false => none

/-- The least `k` with the value below `10 ^ k`, up to one too large. -/
def Interval.top (i : Interval) : Int :=
  if i.value ≥ i.scale then ((Nat.toDigits 10 (i.value / i.scale)).length : Int)
  else 1 - ((Nat.toDigits 10 (i.scale / (i.value + 1))).length : Int) + 1

/-- Try grids from coarse to fine, one more digit at a time. -/
def Interval.search (i : Interval) : Nat → Int → Nat × Int
  | 0, k => (i.floorAt k, k)
  | fuel + 1, k =>
    match i.pick? k with
    | some d => (d, k)
    | none => search i fuel (k - 1)

/-- Move trailing zeros of `d · 10 ^ k` into the exponent. -/
def dropZeros : Nat → Nat → Int → Nat × Int
  | 0, d, k => (d, k)
  | fuel + 1, d, k => if d % 10 = 0 && d ≠ 0 then dropZeros fuel (d / 10) (k + 1) else (d, k)

/-- The shortest `d` and `k` with `d · 10 ^ k` in the interval of a finite magnitude; zero is
`0 · 10 ^ 0`. -/
def shortest (d : Double) : Nat × Int :=
  let (m, q) := d.decode
  if m = 0 then (0, 0)
  else
    let i := intervalOf m q
    -- seventeen digits always suffice, and the first grid may be one too coarse
    let (digits, k) := i.search 20 i.top
    dropZeros 20 digits k

end Double

/-- How a finite double is written out. -/
structure FloatFormat where
  /-- Digits before the point at most, in positional notation. -/
  maxWhole : Nat
  /-- Zeros between the point and the first digit at most, in positional notation. -/
  maxLeadingZeros : Nat
  /-- Mark of the exponent. -/
  exponentMark : String

/-- The text of `digits · 10 ^ k`: positional while the point lies within the limits, always with a
digit on either side of it; else one digit, a fraction if there are more, and the exponent. -/
def FloatFormat.writeDigits (f : FloatFormat) (digits : Nat) (k : Int) : String :=
  let ds := Nat.toDigits 10 digits
  let whole : Int := ds.length + k
  if 0 ≤ k ∧ whole ≤ f.maxWhole then
    String.ofList (ds ++ List.replicate k.toNat '0') ++ ".0"
  else if 0 < whole ∧ whole ≤ f.maxWhole then
    String.ofList (ds.take whole.toNat) ++ "." ++ String.ofList (ds.drop whole.toNat)
  else if -(f.maxLeadingZeros : Int) ≤ whole ∧ whole ≤ 0 then
    "0." ++ String.ofList (List.replicate (-whole).toNat '0' ++ ds)
  else
    let fraction := ds.drop 1
    String.ofList (ds.take 1) ++ (if fraction.isEmpty then "" else "." ++ String.ofList fraction)
      ++ f.exponentMark ++ toString (whole - 1)

/-- The text of a finite double. -/
def FloatFormat.write (f : FloatFormat) (d : Double) : String :=
  let (digits, k) := d.shortest
  (if d.isNegative then "-" else "") ++ f.writeDigits digits k

end LayeredBundles
