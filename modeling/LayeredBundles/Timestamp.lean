import LayeredBundles.Calendar
import LayeredBundles.Text.Blank
import LayeredBundles.Text.Split

/-! # Timestamps as text

A timestamp is a point in time, written as date, time of day and distance from universal time. Reading is
generous with blanks; writing always gives the same form, in universal time.

* **`Timestamp`** — seconds since 1970 and nanoseconds, of which a leap second has up to two milliards;
* **`Timestamp.parse?`** — the timestamp of a text;
* **`Timestamp.render`** — the text of a timestamp: as many places as needed out of none, three, six and
  nine, and `Z` at the end. -/

namespace LayeredBundles

/-- A point in time. -/
structure Timestamp where
  /-- Whole seconds since 1970, rounded down. -/
  seconds : Int
  /-- Nanoseconds into that second; a milliard and more in a leap second, which follows it. -/
  nanos : Nat
  deriving DecidableEq, Repr

namespace Timestamp

/-- Nanoseconds in a second. -/
def second : Nat := 1000000000

/-- The first and the last year that can be written. -/
def yearRange : Int × Int := (-262143, 262142)

/-! ## (1) Reading -/

/-- The number of some digits. -/
def decimal (ds : List Char) : Nat := ds.foldl (fun n d => 10 * n + (d.toNat - 48)) 0

/-- Digits at the beginning, at most `most` of them but at least one, and the characters after them. -/
def digits? (most : Nat) (cs : List Char) : Option (List Char × List Char) :=
  let ds := (cs.take most).takeWhile Char.isDigit
  if ds.isEmpty then none else some (ds, cs.drop ds.length)

/-- A number of one or two digits, blanks before it not counted. -/
def field? (cs : List Char) : Option (Nat × List Char) := do
  let (ds, rest) ← digits? 2 (Text.trimStartChars cs)
  return (decimal ds, rest)

/-- A year: of up to four digits, or of any number of them after a sign. -/
def year? (cs : List Char) : Option (Int × List Char) :=
  match Text.trimStartChars cs with
  | '-' :: rest => do
    let (ds, rest) ← digits? rest.length rest
    return (-(decimal ds : Int), rest)
  | '+' :: rest => do
    let (ds, rest) ← digits? rest.length rest
    return ((decimal ds : Int), rest)
  | cs => do
    let (ds, rest) ← digits? 4 cs
    return ((decimal ds : Int), rest)

/-- What follows the character `c`, blanks before it not counted. -/
def after? (c : Char) (cs : List Char) : Option (List Char) :=
  match Text.trimStartChars cs with
  | d :: rest => if d = c then some rest else none
  | [] => none

/-- Nanoseconds after a point, from the first nine digits; none without a point. -/
def fraction? : List Char → Option (Nat × List Char)
  | '.' :: rest => do
    let (ds, rest) ← digits? 9 rest
    return (decimal (ds ++ List.replicate (9 - ds.length) '0'), rest.dropWhile Char.isDigit)
  | cs => some (0, cs)

/-- Minutes of a distance: two digits below sixty. -/
def minutes? : List Char → Option (Nat × List Char)
  | a :: b :: rest =>
    if a.isDigit && b.isDigit && decimal [a, b] < 60 then some (decimal [a, b], rest) else none
  | _ => none

/-- A distance without its sign, in seconds: hours and minutes, with colons and blanks between. -/
def distance? : List Char → Option (Nat × List Char)
  | a :: b :: rest =>
    if a.isDigit && b.isDigit then do
      let (minutes, rest) ← minutes? (rest.dropWhile fun c => c = ':' || Text.isBlank c)
      return (decimal [a, b] * 3600 + minutes * 60, rest)
    else none
  | _ => none

/-- Whether characters begin with `UTC`, in capitals or not. -/
def beginsUniversal (cs : List Char) : Bool := (cs.take 3).map Char.toUpper = ['U', 'T', 'C']

/-- The distance from universal time, in seconds. -/
def offset? (cs : List Char) : Option (Int × List Char) :=
  if beginsUniversal cs then some (0, cs.drop 3)
  else
    match cs with
    | 'Z' :: rest | 'z' :: rest => some (0, rest)
    | '+' :: rest => (distance? rest).map fun (n, rest) => ((n : Int), rest)
    | '-' :: rest | '\u2212' :: rest => (distance? rest).map fun (n, rest) => (-(n : Int), rest)
    | _ => none

/-- A date. -/
def date? (cs : List Char) : Option ((Int × Nat × Nat) × List Char) := do
  let (year, cs) ← year? cs
  let (month, cs) ← field? (← after? '-' cs)
  let (day, cs) ← field? (← after? '-' cs)
  return ((year, month, day), cs)

/-- A time of day with nanoseconds. -/
def time? (cs : List Char) : Option ((Nat × Nat × Nat × Nat) × List Char) := do
  let (hour, cs) ← field? cs
  let (minute, cs) ← field? (← after? ':' cs)
  let (second, cs) ← field? (← after? ':' cs)
  let (nanos, cs) ← fraction? cs
  return ((hour, minute, second, nanos), cs)

/-- What follows the mark between date and time. -/
def afterMark? : List Char → Option (List Char)
  | 'T' :: rest | 't' :: rest | ' ' :: rest => some rest
  | _ => none

/-- The timestamp of a date, a time of day and a distance from universal time. The sixtieth second of a
minute is the leap second after the one before it. -/
def of? (date : Int × Nat × Nat) (time : Nat × Nat × Nat × Nat) (offset : Int) : Option Timestamp :=
  let (year, month, day) := date
  let (hour, minute, second, nanos) := time
  let leap := second = 60
  let seconds := Calendar.secondsOf year month day hour minute (if leap then 59 else second) - offset
  let first := Calendar.secondsOf yearRange.1 1 1 0 0 0
  let last := Calendar.secondsOf yearRange.2 12 31 23 59 59
  if Calendar.isValidDate year month day ∧ hour < 24 ∧ minute < 60 ∧ second ≤ 60 ∧ offset.natAbs < 86400
      ∧ yearRange.1 ≤ year ∧ year ≤ yearRange.2 ∧ first ≤ seconds ∧ seconds ≤ last then
    some ⟨seconds, if leap then nanos + Timestamp.second else nanos⟩
  else none

/-- The timestamp of a text. -/
def parse? (s : String) : Option Timestamp := do
  let (date, cs) ← date? s.toList
  let (time, cs) ← time? (← afterMark? cs)
  let (offset, cs) ← offset? (Text.trimStartChars cs)
  if (Text.trimStartChars cs).isEmpty then of? date time offset else none

/-! ## (2) Writing -/

/-- A number with zeros in front, to `width` digits at least. -/
def padded (width n : Nat) : String :=
  let ds := Nat.toDigits 10 n
  String.ofList (List.replicate (width - ds.length) '0' ++ ds)

/-- A year: four digits, or a sign and four digits at least. -/
def yearText (year : Int) : String :=
  if 0 ≤ year ∧ year ≤ 9999 then padded 4 year.toNat
  else (if year < 0 then "-" else "+") ++ padded 4 year.natAbs

/-- The places after the second: none, three, six or nine. -/
def fractionText (nanos : Nat) : String :=
  if nanos = 0 then ""
  else if nanos % 1000000 = 0 then "." ++ padded 3 (nanos / 1000000)
  else if nanos % 1000 = 0 then "." ++ padded 6 (nanos / 1000)
  else "." ++ padded 9 nanos

/-- The text of a timestamp. -/
def render (t : Timestamp) : String :=
  let (year, month, day) := Calendar.dateOf (t.seconds.fdiv 86400)
  let ofDay := (t.seconds.fmod 86400).toNat
  -- in a leap second the seconds read sixty
  let extra := if t.nanos < second then 0 else 1
  yearText year ++ "-" ++ padded 2 month ++ "-" ++ padded 2 day ++ "T"
    ++ padded 2 (ofDay / 3600) ++ ":" ++ padded 2 (ofDay / 60 % 60) ++ ":"
    ++ padded 2 (ofDay % 60 + extra)
    ++ fractionText (t.nanos - extra * second) ++ "Z"

end Timestamp

end LayeredBundles
