import LayeredBundles.Archive.Entry

/-! # Times on machine words

An instant as the clock of a machine counts it: seconds since 1970 in a signed word of 64 bits, and nanoseconds into
that second. The distance of two times has its seconds in a word without a sign, so that it is there for any two times.
A time that lies a distance later or earlier is asked for its overflow. What is not asked for stops the run where it
goes wrong: a signed word without a negative, or without one before it.

* **`TimeSpan`**, **`MachineTime`** — a length of time, and a time;
* **`MachineTime.later?`**, **`MachineTime.earlier?`** — a time and a length of time, seconds and nanoseconds apart;
* **`MachineTime.since`** — the distance of two times, and which of them is the later one;
* **`MachineTime.ofTimestamp`** — the time of a recorded timestamp;
* **`MachineTime.wholeSeconds`** — a time in whole seconds;
* **`MachineTime.toInstant`** — the instant that is counted.

The words that are carried and borrowed from second to second are again those of a second (`carried_lt`,
`borrowed_lt`), so a time is never left with too many nanoseconds. -/

namespace LayeredBundles

/-- A **length of time** on machine words. -/
structure TimeSpan where
  /-- Whole seconds. -/
  seconds : UInt64
  /-- Nanoseconds beyond them. -/
  nanos : UInt32
  /-- Less than a second. -/
  nanos_lt : nanos.toNat < 1000000000 := by decide
  deriving DecidableEq, Repr

/-- A **time** on machine words. -/
structure MachineTime where
  /-- Whole seconds since 1970, rounded down. -/
  seconds : Int64
  /-- Nanoseconds into that second. -/
  nanos : UInt32
  /-- Less than a second. -/
  nanos_lt : nanos.toNat < 1000000000 := by decide
  deriving DecidableEq, Repr

/-- The length in nanoseconds. -/
def TimeSpan.total (d : TimeSpan) : Nat := d.seconds.toNat * 1000000000 + d.nanos.toNat

namespace MachineTime

/-- Why a run ends before its end. -/
inductive Stop where
  /-- At a time that is out of range. -/
  | outOfRange
  /-- At a signed word that is out of range. -/
  | wrapped
  deriving DecidableEq, Repr

/-- The result of a run. -/
abbrev Run (α : Type) := Except Stop α

/-- The beginning of 1970. -/
def epoch : MachineTime := ⟨0, 0, by decide⟩

/-- The first time there is. -/
def least : MachineTime := ⟨Int64.minValue, 0, by decide⟩

/-- The instant that is counted. -/
def toInstant (t : MachineTime) : Instant :=
  ⟨t.seconds.toInt, t.nanos.toNat, t.nanos_lt⟩

/-! ## (1) Nanoseconds -/

section Nanoseconds

variable {a b : UInt32} (ha : a.toNat < 1000000000) (hb : b.toNat < 1000000000)

/-- A second has been reached or not. -/
theorem lt_second_iff : a < 1000000000 ↔ a.toNat < 1000000000 := UInt32.lt_iff_toNat_lt

include ha

/-- What is left of a second after less was taken is less than a second. -/
theorem left_lt (h : b ≤ a) : (a - b).toNat < 1000000000 := by
  rw [UInt32.toNat_sub_of_le _ _ h]
  omega

include hb

/-- The nanoseconds of two seconds fit into a word. -/
theorem toNat_sum : (a + b).toNat = a.toNat + b.toNat := by
  rw [UInt32.toNat_add]
  omega

/-- A sum that reaches a second carries one, without overflow. -/
theorem toNat_carried (h : ¬ a + b < 1000000000) : (a + b - 1000000000).toNat = a.toNat + b.toNat - 1000000000 := by
  rw [UInt32.toNat_sub_of_le _ _ (UInt32.not_lt.1 h), toNat_sum ha hb]
  rfl

/-- What is left over is less than a second. -/
theorem carried_lt (h : ¬ a + b < 1000000000) : (a + b - 1000000000).toNat < 1000000000 := by
  rw [toNat_carried ha hb h]
  omega

/-- A difference that goes below zero borrows a second, without overflow. -/
theorem toNat_borrowed : (a + 1000000000 - b).toNat = a.toNat + 1000000000 - b.toNat := by
  have hsecond : (1000000000 : UInt32).toNat = 1000000000 := rfl
  have hsum : (a + 1000000000).toNat = a.toNat + 1000000000 := by
    rw [UInt32.toNat_add, hsecond]
    omega
  have hle : b ≤ a + 1000000000 := by
    rw [UInt32.le_iff_toNat_le, hsum]
    omega
  rw [UInt32.toNat_sub_of_le _ _ hle, hsum]

/-- What is left then is less than a second. -/
theorem borrowed_lt (h : ¬ b ≤ a) : (a + 1000000000 - b).toNat < 1000000000 := by
  rw [toNat_borrowed ha hb]
  rw [UInt32.le_iff_toNat_le] at h
  omega

end Nanoseconds

/-! ## (2) Times and their distances -/

/-- A signed word and a word together, unless the sum is no signed word. -/
def plus? (a : Int64) (b : UInt64) : Option Int64 :=
  if a.toInt + b.toNat ≤ Int64.maxValue.toInt then some (a + b.toInt64) else none

/-- A signed word less a word, unless the difference is no signed word. -/
def minus? (a : Int64) (b : UInt64) : Option Int64 :=
  if Int64.minValue.toInt ≤ a.toInt - b.toNat then some (a - b.toInt64) else none

/-- The time that much later, if there is one. A full second of nanoseconds is carried. -/
def later? (t : MachineTime) (d : TimeSpan) : Option MachineTime := do
  let seconds ← plus? t.seconds d.seconds
  if h : t.nanos + d.nanos < 1000000000 then return ⟨seconds, t.nanos + d.nanos, lt_second_iff.1 h⟩
  else return ⟨← plus? seconds 1, t.nanos + d.nanos - 1000000000, carried_lt t.nanos_lt d.nanos_lt h⟩

/-- The time that much earlier, if there is one. Nanoseconds that are missing are borrowed. -/
def earlier? (t : MachineTime) (d : TimeSpan) : Option MachineTime := do
  let seconds ← minus? t.seconds d.seconds
  if h : d.nanos ≤ t.nanos then return ⟨seconds, t.nanos - d.nanos, left_lt t.nanos_lt h⟩
  else return ⟨← minus? seconds 1, t.nanos + 1000000000 - d.nanos, borrowed_lt t.nanos_lt d.nanos_lt h⟩

/-- Whether a time is not later than another one. -/
def notAfter (u t : MachineTime) : Bool := u.seconds < t.seconds || (u.seconds = t.seconds && u.nanos ≤ t.nanos)

/-- By how much a time is ahead of one that is not later. The signed difference of the seconds may wrap; without its
sign it is right. -/
def ahead (t u : MachineTime) : TimeSpan :=
  if h : u.nanos ≤ t.nanos then ⟨(t.seconds - u.seconds).toUInt64, t.nanos - u.nanos, left_lt t.nanos_lt h⟩
  else ⟨(t.seconds - 1 - u.seconds).toUInt64, t.nanos + 1000000000 - u.nanos, borrowed_lt t.nanos_lt u.nanos_lt h⟩

/-- The time that lies between two times when the first is not earlier; else the time by which it is earlier. -/
def since (t u : MachineTime) : Except TimeSpan TimeSpan :=
  if notAfter u t then .ok (t.ahead u) else .error (u.ahead t)

/-! ## (3) Timestamps and whole seconds -/

/-- The time there is, or a stop. -/
def orStop : Option MachineTime → Run MachineTime
  | some t => .ok t
  | none => .error .outOfRange

/-- The time of a recorded timestamp: its distance from 1970, forwards or backwards. -/
def ofTimestamp (timestamp : Int64) : Run MachineTime :=
  let distance : TimeSpan := ⟨timestamp.abs.toUInt64, 0, by decide⟩
  orStop (if 0 ≤ timestamp then epoch.later? distance else epoch.earlier? distance)

/-- A word as a signed one, the greatest one in place of a word that is too large. -/
def saturated (n : UInt64) : Int64 := if n ≤ Int64.maxValue.toUInt64 then n.toInt64 else Int64.maxValue

/-- A signed word negated, which stops the run at the least one. -/
def negated (n : Int64) : Run Int64 := if n = Int64.minValue then .error .wrapped else .ok (-n)

/-- The signed word before, which stops the run at the least one. -/
def oneLess (n : Int64) : Run Int64 := if n = Int64.minValue then .error .wrapped else .ok (n - 1)

/-- Seconds since 1970, rounded down also before it. -/
def wholeSeconds (t : MachineTime) : Run Int64 :=
  match t.since epoch with
  | .ok d => .ok (saturated d.seconds)
  | .error d => do
    let seconds ← negated (saturated d.seconds)
    if 0 < d.nanos then oneLess seconds else return seconds

end MachineTime

end LayeredBundles
