/-! # Days and seconds of the calendar

The Gregorian calendar, also before its time. Days are counted from the first of January 1970.

* **`Calendar.isValidDate`** — which dates exist;
* **`Calendar.daysOf`**, **`Calendar.dateOf`** — the number of a day, and the date of a number;
* **`Calendar.secondsOf`** — seconds since 1970 of a date and a time of day. -/

namespace LayeredBundles

namespace Calendar

/-- Every fourth year, but of the full centuries only every fourth. -/
def isLeap (year : Int) : Bool := year % 4 = 0 && (year % 100 ≠ 0 || year % 400 = 0)

/-- The days of a month. -/
def daysInMonth (year : Int) (month : Nat) : Nat :=
  if month = 2 then (if isLeap year then 29 else 28)
  else if month = 4 || month = 6 || month = 9 || month = 11 then 30
  else 31

/-- Whether a date exists. -/
def isValidDate (year : Int) (month day : Nat) : Bool :=
  1 ≤ month && month ≤ 12 && 1 ≤ day && day ≤ daysInMonth year month

/-- The number of a day. Years begin in March here, so the leap day is the last of its year. -/
def daysOf (year : Int) (month day : Nat) : Int :=
  let y := if month ≤ 2 then year - 1 else year
  let m : Int := if month ≤ 2 then (month : Int) + 9 else (month : Int) - 3
  365 * y + y.fdiv 4 - y.fdiv 100 + y.fdiv 400 + (153 * m + 2) / 5 + ((day : Int) - 1) - 719468

/-- Year, month and day of the number of a day. -/
def dateOf (days : Int) : Int × Nat × Nat :=
  let z := days + 719468
  let era := z.fdiv 146097
  let dayOfEra := z.fmod 146097
  let yearOfEra := (dayOfEra - dayOfEra / 1460 + dayOfEra / 36524 - dayOfEra / 146096) / 365
  let dayOfYear := dayOfEra - (365 * yearOfEra + yearOfEra / 4 - yearOfEra / 100)
  let m := (5 * dayOfYear + 2) / 153
  let day := dayOfYear - (153 * m + 2) / 5 + 1
  let month := if m < 10 then m + 3 else m - 9
  (yearOfEra + era * 400 + (if month ≤ 2 then 1 else 0), month.toNat, day.toNat)

/-- Seconds since 1970. -/
def secondsOf (year : Int) (month day hour minute second : Nat) : Int :=
  daysOf year month day * 86400 + (hour * 3600 + minute * 60 + second : Nat)

end Calendar

end LayeredBundles
