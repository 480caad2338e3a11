import LayeredBundles.Archive.Path

/-! # Entries of an archive

* **`Entry`** — a file or directory of an archive with its size and recorded time;
* **`Instant`** — a point in time to the nanosecond;
* **`Entry.modified`** — the recorded time as an instant;
* **`Instant.wholeSeconds`** — an instant in whole seconds. -/

namespace LayeredBundles

/-- One file or directory of an archive. -/
structure Entry where
  /-- The path; in normal form once the entry stands in a catalog. -/
  path : String
  /-- Whether it is a directory. -/
  isDir : Bool
  /-- Length of the contents, zero for a directory. -/
  size : Nat
  /-- Recorded time of modification in seconds since 1970. -/
  timestamp : Int
  deriving DecidableEq, Repr

namespace Entry

/-- A file. -/
def file (path : String) (size : Nat) (timestamp : Int) : Entry := ⟨path, false, size, timestamp⟩

/-- A directory. -/
def directory (path : String) (timestamp : Int) : Entry := ⟨path, true, 0, timestamp⟩

/-- The last segment of the path. -/
def name (e : Entry) : String := ArchivePath.name e.path

/-- The path of the directory that holds the entry. -/
def parent (e : Entry) : String := ArchivePath.parent e.path

end Entry

/-- An **instant**: whole seconds since 1970, rounded down, and nanoseconds into that second. -/
structure Instant where
  /-- Whole seconds, rounded down. -/
  seconds : Int
  /-- Nanoseconds into the second. -/
  nanos : Nat
  /-- Less than a second. -/
  nanos_lt : nanos < 1000000000 := by omega
  deriving DecidableEq, Repr

namespace Instant

/-- The beginning of 1970. -/
def epoch : Instant := ⟨0, 0, by decide⟩

/-- Nanoseconds since 1970. -/
def total (i : Instant) : Int := i.seconds * 1000000000 + i.nanos

/-- An instant of that many nanoseconds since 1970. -/
def ofTotal (n : Int) : Instant :=
  ⟨n.fdiv 1000000000, (n.fmod 1000000000).toNat, by
    have h₁ := Int.fmod_nonneg_of_pos n (b := 1000000000) (by decide)
    have h₂ := Int.fmod_lt_of_pos n (b := 1000000000) (by decide)
    omega⟩

/-- The instant the given nanoseconds later. -/
def add (i : Instant) (d : Nat) : Instant := ofTotal (i.total + d)

/-- The instant the given nanoseconds earlier. -/
def sub (i : Instant) (d : Nat) : Instant := ofTotal (i.total - d)

/-- The time that lies between an instant and 1970, in nanoseconds, when the instant is not earlier;
else the time by which it is earlier. -/
def sinceEpoch (i : Instant) : Except Nat Nat :=
  if i.total ≥ 0 then .ok i.total.toNat else .error (-i.total).toNat

end Instant

/-- The instant of a recorded time: its distance from 1970, forwards or backwards. -/
def Entry.modified (e : Entry) : Instant :=
  let distance := e.timestamp.natAbs * 1000000000
  if e.timestamp ≥ 0 then Instant.epoch.add distance else Instant.epoch.sub distance

/-- The greatest count of seconds, in either direction. -/
def Instant.maxSeconds : Nat := 0x7FFFFFFFFFFFFFFF

/-- Seconds since 1970, rounded down also before it. The distance in whole seconds saturates at
`maxSeconds`. -/
def Instant.wholeSeconds (i : Instant) : Int :=
  match i.sinceEpoch with
  | .ok d => min (d / 1000000000) maxSeconds
  | .error d =>
    let whole : Int := min (d / 1000000000) maxSeconds
    if d % 1000000000 = 0 then -whole else -whole - 1

end LayeredBundles
