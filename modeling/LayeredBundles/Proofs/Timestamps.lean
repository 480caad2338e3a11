import LayeredBundles.Timestamp
import Mathlib.Data.List.Induction
import Mathlib.Tactic.IntervalCases
import Mathlib.Tactic.Ring

/-! # Timestamps that are written and read back

A day has one date, and a date one day. A timestamp is written in universal time and with all the places that its
nanoseconds need, so nothing is lost, also not in a leap second.

* **`Calendar.exists_cycles`** — a day among those of four centuries, by the cycles of leap years;
* **`Calendar.daysOf_dateOf`**, **`Calendar.isValidDate_dateOf`** — the date of a day;
* **`Timestamp.Writable`** — timestamps whose year can be written;
* **`Timestamp.parse?_render`** — these are read back. -/

namespace LayeredBundles

/-! ## (1) The calendar -/

namespace Calendar

variable {day : Int}

/-- **A day of four centuries**: `c` centuries, `q` times four years and `a` years have passed, and `e` days. The last
day of a year is its 366th only before a leap day ends it. -/
theorem exists_cycles (h : 0 ≤ day) (h' : day < 146097) : ∃ c q a e : Int, 0 ≤ c ∧ c ≤ 3 ∧ 0 ≤ q ∧ q ≤ 24 ∧
    0 ≤ a ∧ a ≤ 3 ∧ 0 ≤ e ∧ e ≤ 365 ∧ day = 36524 * c + 1461 * q + 365 * a + e ∧
      (e = 365 → a = 3 ∧ (q = 24 → c = 3)) := by
  obtain ⟨c, r, hc, hc', hr, hr', hday⟩ : ∃ c r : Int, 0 ≤ c ∧ c ≤ 3 ∧ 0 ≤ r ∧ (r < 36524 ∨ r = 36524 ∧ c = 3) ∧
      day = 36524 * c + r := by
    by_cases hlast : day = 146096
    · exact ⟨3, 36524, by omega, by omega, by omega, by omega, by omega⟩
    · exact ⟨day / 36524, day % 36524, by omega, by omega, by omega, by omega, by omega⟩
  obtain ⟨a, e, ha, ha', he, he', hrest⟩ : ∃ a e : Int, 0 ≤ a ∧ a ≤ 3 ∧ 0 ≤ e ∧ (e < 365 ∨ e = 365 ∧ a = 3) ∧
      r % 1461 = 365 * a + e := by
    by_cases hlast : r % 1461 = 1460
    · exact ⟨3, 365, by omega, by omega, by omega, by omega, by omega⟩
    · exact ⟨r % 1461 / 365, r % 1461 % 365, by omega, by omega, by omega, by omega, by omega⟩
  exact ⟨c, r / 1461, a, e, hc, hc', by omega, by omega, ha, ha', he, by omega, by omega, by omega⟩

/-- The year of a day among those of four centuries. -/
theorem year_of_cycles {c q a e : Int} (hc : 0 ≤ c) (hc' : c ≤ 3) (hq : 0 ≤ q) (hq' : q ≤ 24) (ha : 0 ≤ a)
    (ha' : a ≤ 3) (he : 0 ≤ e) (he' : e ≤ 365) (hday : day = 36524 * c + 1461 * q + 365 * a + e)
    (hleap : e = 365 → a = 3 ∧ (q = 24 → c = 3)) :
    (day - day / 1460 + day / 36524 - day / 146096) / 365 = 100 * c + 4 * q + a := by
  have hlong : day / 1460 = 25 * c + q ∧ e < 365 ∨ day / 1460 = 25 * c + q + 1 ∧ 1 ≤ e := by omega
  have hends : day / 36524 - day / 146096 = c := by
    interval_cases c <;> omega
  omega

/-- The leap years before a year. -/
theorem leaps_of_cycles {c q a : Int} (hc : 0 ≤ c) (hc' : c ≤ 3) (hq : 0 ≤ q) (hq' : q ≤ 24) (ha : 0 ≤ a)
    (ha' : a ≤ 3) (era : Int) : (100 * c + 4 * q + a + era * 400) / 4 = 25 * c + q + 100 * era ∧
      (100 * c + 4 * q + a + era * 400) / 100 = c + 4 * era ∧ (100 * c + 4 * q + a + era * 400) / 400 = era := by
  omega

/-- The month of a day, counted from March. -/
theorem month_bounds {doy : Int} (h : 0 ≤ doy) (h' : doy ≤ 365) :
    0 ≤ (5 * doy + 2) / 153 ∧ (5 * doy + 2) / 153 ≤ 11 := by omega

/-- A date by its day, counted from the first of March of the year `y`. -/
theorem dateOf_eq (days : Int) : ∃ y doy : Int, 0 ≤ doy ∧ doy ≤ 365 ∧
    days = 365 * y + y / 4 - y / 100 + y / 400 + doy - 719468 ∧ (doy = 365 → isLeap (y + 1) = true) ∧
      dateOf days = ((if (5 * doy + 2) / 153 < 10 then y else y + 1),
        (if (5 * doy + 2) / 153 < 10 then (5 * doy + 2) / 153 + 3 else (5 * doy + 2) / 153 - 9).toNat,
        (doy - (153 * ((5 * doy + 2) / 153) + 2) / 5 + 1).toNat) := by
  -- The day of the era falls into centuries, cycles of four years, years and a day of the year.
  obtain ⟨c, q, a, e, hc, hc', hq, hq', ha, ha', he, he', hday, hleap⟩ :=
    exists_cycles (Int.fmod_nonneg_of_pos (days + 719468) (show (0 : Int) < 146097 by decide))
      (Int.fmod_lt_of_pos _ (by decide))
  have hyear := year_of_cycles hc hc' hq hq' ha ha' he he' hday hleap
  have hera := Int.mul_fdiv_add_fmod (days + 719468) 146097
  rw [dateOf]
  generalize (days + 719468).fdiv 146097 = era at hera ⊢
  generalize (days + 719468).fmod 146097 = doe at hday hyear hera ⊢
  simp only [hyear]
  obtain ⟨hfour, hhundred, -⟩ := leaps_of_cycles hc hc' hq hq' ha ha' 0
  rw [Int.zero_mul, Int.add_zero, Int.mul_zero, Int.add_zero] at hfour hhundred
  have hdoy : doe - (365 * (100 * c + 4 * q + a) + (100 * c + 4 * q + a) / 4 - (100 * c + 4 * q + a) / 100) = e := by
    rw [hfour, hhundred, hday]
    ring
  simp only [hdoy]
  -- The leap years counted through all eras.
  obtain ⟨hfour', hhundred', hcycle⟩ := leaps_of_cycles hc hc' hq hq' ha ha' era
  refine ⟨100 * c + 4 * q + a + era * 400, e, he, he', ?_, fun heq => ?_, ?_⟩
  · rw [hfour', hhundred', hcycle]
    clear hyear hdoy
    omega
  · obtain ⟨rfl, hq24⟩ := hleap heq
    simp only [isLeap, ne_eq, Bool.and_eq_true, Bool.or_eq_true, decide_eq_true_eq]
    omega
  · have hmonth := month_bounds he he'
    clear hyear hdoy hday hera
    generalize (5 * e + 2) / 153 = m at hmonth
    by_cases hm : m < 10
    · rw [if_pos hm, if_pos hm, if_neg (by omega), Int.add_zero]
    · rw [if_neg hm, if_neg hm, if_pos (by omega)]

/-- **The number of a day** is that of its date. -/
theorem daysOf_dateOf (days : Int) : daysOf (dateOf days).1 (dateOf days).2.1 (dateOf days).2.2 = days := by
  obtain ⟨y, doy, hdoy, hdoy', hdays, -, hdate⟩ := dateOf_eq days
  rw [hdate, daysOf]
  simp only [Int.fdiv_eq_ediv_of_nonneg _ (show (0 : Int) ≤ 4 by decide),
    Int.fdiv_eq_ediv_of_nonneg _ (show (0 : Int) ≤ 100 by decide),
    Int.fdiv_eq_ediv_of_nonneg _ (show (0 : Int) ≤ 400 by decide)]
  have hmonth := month_bounds hdoy hdoy'
  generalize hm : (5 * doy + 2) / 153 = m at hmonth ⊢
  split
  · rw [if_neg (by omega), if_neg (by omega)]
    omega
  · rw [if_pos (by omega), if_pos (by omega)]
    rw [Int.add_sub_cancel]
    omega

/-- **The date of a day exists.** -/
theorem isValidDate_dateOf (days : Int) :
    isValidDate (dateOf days).1 (dateOf days).2.1 (dateOf days).2.2 = true := by
  obtain ⟨y, doy, hdoy, hdoy', -, hleap, hdate⟩ := dateOf_eq days
  rw [hdate, isValidDate]
  obtain ⟨hm, hm'⟩ := month_bounds hdoy hdoy'
  -- By the month, counted from March.
  generalize hm : (5 * doy + 2) / 153 = m at *
  simp only [Bool.and_eq_true, decide_eq_true_eq]
  interval_cases m <;> simp [daysInMonth] <;> try omega
  -- Only February ends with a leap day.
  refine ⟨by omega, ?_⟩
  by_cases hlast : doy = 365
  · rw [if_pos (hleap hlast)]
    omega
  · split <;> omega

/-- The year of a day that is not before the first of January of a year. -/
theorem le_year_dateOf {days : Int} (h : daysOf (-262143) 1 1 ≤ days) : -262143 ≤ (dateOf days).1 := by
  obtain ⟨y, doy, hdoy, hdoy', hdays, -, hdate⟩ := dateOf_eq days
  have hfirst : daysOf (-262143) 1 1 = -96465292 := by decide
  rw [hfirst] at h
  rw [hdate]
  dsimp only
  split <;> omega

/-- The year of a day that is not after the last of December of a year. -/
theorem year_dateOf_le {days : Int} (h : days ≤ daysOf 262142 12 31) : (dateOf days).1 ≤ 262142 := by
  obtain ⟨y, doy, hdoy, hdoy', hdays, -, hdate⟩ := dateOf_eq days
  have hlast : daysOf 262142 12 31 = 95026236 := by decide
  rw [hlast] at h
  rw [hdate]
  dsimp only
  split <;> omega

end Calendar

/-! ## (2) Numbers in text -/

namespace Timestamp

variable {ds rest : List Char} {c : Char} {most width n : Nat}

/-- Digits are read as the core library reads them. -/
theorem decimal_eq (ds : List Char) : decimal ds = Nat.ofDigitChars 10 ds 0 := by
  rw [Nat.ofDigitChars_eq_foldl]
  rfl

/-- A padded number is zeros and its digits. -/
theorem toList_padded (width n : Nat) : (padded width n).toList =
    List.replicate (width - (Nat.toDigits 10 n).length) '0' ++ Nat.toDigits 10 n := by simp [padded]

/-- Zeros in front change no number. -/
theorem decimal_padded (width n : Nat) : decimal (padded width n).toList = n := by
  rw [decimal_eq, toList_padded, Nat.ofDigitChars_append, Nat.ofDigitChars_replicate_zero, Nat.mul_zero,
    Nat.ofDigitChars_ten_toDigits]

/-- All of it are digits. -/
theorem isDigit_of_mem_padded (h : c ∈ (padded width n).toList) : c.isDigit = true := by
  rw [toList_padded, List.mem_append] at h
  rcases h with h | h
  · rw [List.eq_of_mem_replicate h]
    decide
  · exact Nat.isDigit_of_mem_toDigits (by decide) (by decide) h

/-- It has one digit at least. -/
theorem padded_ne_nil (width n : Nat) : (padded width n).toList ≠ [] := by simp [toList_padded]

/-- It is as long as its width, if it fits. -/
theorem length_padded (hwidth : 0 < width) (h : n < 10 ^ width) : (padded width n).toList.length = width := by
  have hlength := (Nat.length_toDigits_le_iff (b := 10) (by decide) hwidth).2 h
  rw [toList_padded, List.length_append, List.length_replicate]
  omega

/-- Digits are no blanks. -/
theorem isBlank_of_isDigit (h : c.isDigit = true) : Text.isBlank c = false := by
  rw [Char.isDigit, Bool.and_eq_true, decide_eq_true_eq, decide_eq_true_eq] at h
  have hfirst : 48 ≤ c.toNat := UInt32.le_iff_toNat_le.1 h.1
  have hlast : c.toNat ≤ 57 := UInt32.le_iff_toNat_le.1 h.2
  simp [Text.isBlank, Text.blankRanges]
  omega

/-- Nothing is trimmed in front of what is not blank. -/
theorem trimStartChars_cons (h : Text.isBlank c = false) : Text.trimStartChars (c :: rest) = c :: rest := by
  rw [Text.trimStartChars, List.dropWhile_cons, h]
  rfl

/-- No blank stands before a number. -/
theorem trimStartChars_padded (width n : Nat) (rest : List Char) :
    Text.trimStartChars ((padded width n).toList ++ rest) = (padded width n).toList ++ rest := by
  obtain ⟨c, cs, hcs⟩ := List.exists_cons_of_ne_nil (padded_ne_nil width n)
  have hdigit : c.isDigit = true := isDigit_of_mem_padded (show c ∈ (padded width n).toList by simp [hcs])
  rw [hcs, List.cons_append, trimStartChars_cons (isBlank_of_isDigit hdigit)]

/-- **Digits are read** up to what is no digit, or as many as are asked for. -/
theorem digits?_append (hds : ∀ c ∈ ds, c.isDigit = true) (hne : ds ≠ []) (hmost : ds.length ≤ most)
    (hrest : ds.length = most ∨ ∀ c ∈ rest.head?, c.isDigit = false) : digits? most (ds ++ rest) = some (ds, rest) := by
  have hmore : (rest.take (most - ds.length)).takeWhile Char.isDigit = [] := by
    rcases hrest with heq | hhead
    · simp [heq]
    · cases rest with
      | nil => simp
      | cons c rest =>
        cases hcount : most - ds.length with
        | zero => rfl
        | succ count => simp [hhead c rfl]
  have htake : ((ds ++ rest).take most).takeWhile Char.isDigit = ds := by
    rw [List.take_append, List.take_of_length_le hmost, List.takeWhile_append_of_pos hds, hmore, List.append_nil]
  simp [digits?, htake, hne]

/-- A number of two digits is read. -/
theorem field?_padded (h : n < 100) (rest : List Char) :
    field? ((padded 2 n).toList ++ rest) = some (n, rest) := by
  have hlength := length_padded (show 0 < 2 by decide) h
  rw [field?, trimStartChars_padded, digits?_append (fun c hc => isDigit_of_mem_padded hc) (padded_ne_nil 2 n)
    hlength.le (.inl hlength)]
  simp [decimal_padded]

/-- Digits up to a character that is none are read without a bound. -/
theorem digits?_padded (width n : Nat) (hc : c.isDigit = false) (rest : List Char) :
    digits? ((padded width n).toList ++ c :: rest).length ((padded width n).toList ++ c :: rest) =
      some ((padded width n).toList, c :: rest) := by
  refine digits?_append (fun c hc => isDigit_of_mem_padded hc) (padded_ne_nil width n) (by simp) (.inr ?_)
  rintro _ ⟨⟩
  exact hc

/-- A year may have a minus. -/
theorem year?_minus (rest : List Char) : year? ('-' :: rest) =
    (digits? rest.length rest).bind fun r => some (-(decimal r.1 : Int), r.2) := by
  rw [year?, trimStartChars_cons (by decide)]
  rfl

/-- A year may have a plus. -/
theorem year?_plus (rest : List Char) : year? ('+' :: rest) =
    (digits? rest.length rest).bind fun r => some ((decimal r.1 : Int), r.2) := by
  rw [year?, trimStartChars_cons (by decide)]
  rfl

/-- **A year is read**, with or without a sign. -/
theorem year?_yearText (year : Int) (rest : List Char) :
    year? ((yearText year).toList ++ '-' :: rest) = some (year, '-' :: rest) := by
  unfold yearText
  split
  · next h =>
    have hlength : (padded 4 year.toNat).toList.length = 4 := length_padded (by decide) (by omega)
    obtain ⟨c, cs, hcs⟩ := List.exists_cons_of_ne_nil (padded_ne_nil 4 year.toNat)
    have hdigit : c.isDigit = true := isDigit_of_mem_padded (show c ∈ (padded 4 year.toNat).toList by simp [hcs])
    have hread : digits? 4 ((padded 4 year.toNat).toList ++ '-' :: rest) = some (_, '-' :: rest) :=
      digits?_append (fun c hc => isDigit_of_mem_padded hc) (padded_ne_nil 4 year.toNat) hlength.le (.inl hlength)
    have hvalue := decimal_padded 4 year.toNat
    rw [year?, trimStartChars_padded]
    rw [hcs] at hread hvalue ⊢
    -- A digit is no sign.
    split
    · next heq =>
      rw [List.cons_append, List.cons.injEq] at heq
      rw [heq.1] at hdigit
      exact absurd hdigit (by decide)
    · next heq =>
      rw [List.cons_append, List.cons.injEq] at heq
      rw [heq.1] at hdigit
      exact absurd hdigit (by decide)
    · rw [hread]
      simp [hvalue, h.1]
  · next h =>
    have hread := digits?_padded 4 year.natAbs (c := '-') (by decide) rest
    split
    · next hneg =>
      rw [String.toList_append, show ("-" : String).toList = ['-'] by decide, List.append_assoc, List.singleton_append,
        year?_minus, hread]
      simp only [Option.bind_some, decimal_padded, Option.some.injEq, Prod.mk.injEq, and_true]
      omega
    · next hneg =>
      rw [String.toList_append, show ("+" : String).toList = ['+'] by decide, List.append_assoc, List.singleton_append,
        year?_plus, hread]
      simp only [Option.bind_some, decimal_padded, Option.some.injEq, Prod.mk.injEq, and_true]
      omega

/-- What stands behind a character that was asked for. -/
theorem after?_cons (h : Text.isBlank c = false) (rest : List Char) : after? c (c :: rest) = some rest := by
  simp [after?, trimStartChars_cons h]

/-- Places after the point are read with the zeros that are left out. -/
theorem fraction?_padded {places k : Nat} (hplaces : 0 < places) (h9 : places ≤ 9) (hk : k < 10 ^ places)
    (rest : List Char) : fraction? ('.' :: ((padded places k).toList ++ 'Z' :: rest)) =
      some (10 ^ (9 - places) * k, 'Z' :: rest) := by
  have hlength := length_padded hplaces hk
  have hread : digits? 9 ((padded places k).toList ++ 'Z' :: rest) = some ((padded places k).toList, 'Z' :: rest) := by
    refine digits?_append (fun c hc => isDigit_of_mem_padded hc) (padded_ne_nil places k) (hlength.le.trans h9)
      (.inr ?_)
    rintro _ ⟨⟩
    rfl
  have hvalue : decimal ((padded places k).toList ++ List.replicate (9 - places) '0') = 10 ^ (9 - places) * k := by
    rw [decimal_eq, Nat.ofDigitChars_append, Nat.ofDigitChars_replicate_zero, ← decimal_eq, decimal_padded]
  rw [fraction?, hread]
  simp only [Option.bind_eq_bind, Option.bind_some, hlength, hvalue]
  rfl

/-- **Nanoseconds are read.** -/
theorem fraction?_fractionText (h : n < second) (rest : List Char) :
    fraction? ((fractionText n).toList ++ 'Z' :: rest) = some (n, 'Z' :: rest) := by
  rw [second] at h
  have hpoint : ∀ s : String, ("." ++ s).toList = '.' :: s.toList := fun s => by
    rw [String.toList_append]
    rfl
  unfold fractionText
  split
  · next hzero =>
    subst hzero
    rfl
  split
  · rw [hpoint, List.cons_append, fraction?_padded (by decide) (by decide) (by omega)]
    congr 2
    omega
  split
  · rw [hpoint, List.cons_append, fraction?_padded (by decide) (by decide) (by omega)]
    congr 2
    omega
  · rw [hpoint, List.cons_append, fraction?_padded (by decide) (by decide) (by omega)]
    congr 2
    omega

/-! ## (3) Timestamps -/

/-- A date is read. -/
theorem date?_text {month day : Nat} (hmonth : month < 100) (hday : day < 100) (year : Int) (rest : List Char) :
    date? ((yearText year).toList ++ '-' :: ((padded 2 month).toList ++ '-' :: ((padded 2 day).toList ++ rest))) =
      some ((year, month, day), rest) := by
  have hblank : Text.isBlank '-' = false := by decide
  rw [date?, year?_yearText]
  simp only [Option.bind_eq_bind, Option.bind_some, after?_cons hblank, field?_padded hmonth, field?_padded hday]
  rfl

/-- A time of day is read. -/
theorem time?_text {hour minute sec nanos : Nat} (hhour : hour < 100) (hminute : minute < 100) (hsec : sec < 100)
    (hnanos : nanos < second) (rest : List Char) :
    time? ((padded 2 hour).toList ++ ':' :: ((padded 2 minute).toList ++ ':' :: ((padded 2 sec).toList ++
      ((fractionText nanos).toList ++ 'Z' :: rest)))) = some ((hour, minute, sec, nanos), 'Z' :: rest) := by
  have hblank : Text.isBlank ':' = false := by decide
  rw [time?]
  simp only [Option.bind_eq_bind, Option.bind_some, after?_cons hblank, field?_padded hhour, field?_padded hminute,
    field?_padded hsec, fraction?_fractionText hnanos]
  rfl

/-- A text of a date and a time of day in universal time is read. -/
theorem parse?_text {month day hour minute sec nanos : Nat} (hmonth : month < 100) (hday : day < 100)
    (hhour : hour < 100) (hminute : minute < 100) (hsec : sec < 100) (hnanos : nanos < second) (year : Int) :
    parse? (yearText year ++ "-" ++ padded 2 month ++ "-" ++ padded 2 day ++ "T" ++ padded 2 hour ++ ":" ++
      padded 2 minute ++ ":" ++ padded 2 sec ++ fractionText nanos ++ "Z") =
        of? (year, month, day) (hour, minute, sec, nanos) 0 := by
  have hminus : ("-" : String).toList = ['-'] := by decide
  have hcolon : (":" : String).toList = [':'] := by decide
  have hmark : ("T" : String).toList = ['T'] := by decide
  have hzone : ("Z" : String).toList = ['Z'] := by decide
  simp only [parse?, String.toList_append, hminus, hcolon, hmark, hzone, List.append_assoc, List.cons_append,
    List.nil_append, date?_text hmonth hday, time?_text hhour hminute hsec hnanos, Option.bind_eq_bind,
    Option.bind_some, afterMark?]
  rfl

/-- `t.Writable`: the year of a timestamp can be written, and its nanoseconds are those of a second, or of the leap
second after a minute. -/
structure Writable (t : Timestamp) : Prop where
  /-- Not before the first year. -/
  first : Calendar.secondsOf yearRange.1 1 1 0 0 0 ≤ t.seconds
  /-- Not after the last year. -/
  last : t.seconds ≤ Calendar.secondsOf yearRange.2 12 31 23 59 59
  /-- The nanoseconds. -/
  nanos : t.nanos < second ∨ t.nanos < 2 * second ∧ t.seconds.fmod 60 = 59

/-- The date and the time of day of a point in time belong to it. -/
theorem of?_dateOf {seconds : Int} {year : Int} {month day sec nanos : Nat}
    (hdate : Calendar.dateOf (seconds.fdiv 86400) = (year, month, day))
    (hfirst : Calendar.secondsOf yearRange.1 1 1 0 0 0 ≤ seconds)
    (hlast : seconds ≤ Calendar.secondsOf yearRange.2 12 31 23 59 59)
    (hsec : (if sec = 60 then 59 else sec) = (seconds.fmod 86400).toNat % 60) :
    of? (year, month, day) ((seconds.fmod 86400).toNat / 3600, (seconds.fmod 86400).toNat / 60 % 60, sec, nanos) 0 =
      some ⟨seconds, if sec = 60 then nanos + second else nanos⟩ := by
  have hday := Int.mul_fdiv_add_fmod seconds 86400
  have hnonneg := Int.fmod_nonneg_of_pos seconds (show (0 : Int) < 86400 by decide)
  have hlt := Int.fmod_lt_of_pos seconds (show (0 : Int) < 86400 by decide)
  have hnumber := Calendar.daysOf_dateOf (seconds.fdiv 86400)
  have hvalid := Calendar.isValidDate_dateOf (seconds.fdiv 86400)
  have hyear : Calendar.daysOf _ 1 1 ≤ seconds.fdiv 86400 → _ := Calendar.le_year_dateOf
  have hyear' : seconds.fdiv 86400 ≤ Calendar.daysOf _ 12 31 → _ := Calendar.year_dateOf_le
  rw [hdate] at hnumber hvalid hyear hyear'
  -- The time of day is not negative, and all of it is told.
  have hsum : Calendar.secondsOf year month day ((seconds.fmod 86400).toNat / 3600)
      ((seconds.fmod 86400).toNat / 60 % 60) ((seconds.fmod 86400).toNat % 60) = seconds := by
    rw [Calendar.secondsOf, hnumber]
    omega
  have hlow : Calendar.daysOf (-262143) 1 1 ≤ seconds.fdiv 86400 := by
    rw [Calendar.secondsOf] at hfirst
    simp only [yearRange] at hfirst
    omega
  have hhigh : seconds.fdiv 86400 ≤ Calendar.daysOf 262142 12 31 := by
    rw [Calendar.secondsOf] at hlast
    simp only [yearRange] at hlast
    omega
  have hrange : sec ≤ 60 := by
    split at hsec <;> omega
  simp only [of?, hsec, hsum, Int.sub_zero]
  rw [if_pos]
  exact ⟨hvalid, by omega, by omega, hrange, by decide, hyear hlow, hyear' hhigh, hfirst, hlast⟩

/-- **A timestamp that is written is read back.** -/
theorem parse?_render {t : Timestamp} (h : t.Writable) : parse? t.render = some t := by
  have hvalid := Calendar.isValidDate_dateOf (t.seconds.fdiv 86400)
  have hlt := Int.fmod_lt_of_pos t.seconds (show (0 : Int) < 86400 by decide)
  have hday := Int.mul_fdiv_add_fmod t.seconds 86400
  obtain ⟨hfirst, hlast, hnanos⟩ := h
  obtain ⟨seconds, nanos⟩ := t
  dsimp only at *
  simp only [render]
  rcases hdate : Calendar.dateOf (seconds.fdiv 86400) with ⟨year, month, day⟩
  rw [hdate] at hvalid
  have hmonths : month < 100 ∧ day < 100 := by
    simp only [Calendar.isValidDate, Bool.and_eq_true, decide_eq_true_eq] at hvalid
    have hdays : Calendar.daysInMonth year month ≤ 31 := by
      unfold Calendar.daysInMonth
      split
      · split <;> decide
      · split <;> decide
    omega
  have hsecond : second = 1000000000 := rfl
  -- In the leap second the seconds read sixty.
  by_cases hleap : nanos < second
  · rw [if_pos hleap, Nat.zero_mul, Nat.sub_zero, Nat.add_zero, parse?_text hmonths.1 hmonths.2 (by omega) (by omega)
      (by omega) hleap, of?_dateOf hdate hfirst hlast, if_neg (by omega)]
    rw [if_neg (by omega)]
  · obtain ⟨htwice, hlast59⟩ := hnanos.resolve_left hleap
    have hsec : (seconds.fmod 86400).toNat % 60 = 59 := by
      rw [Int.fmod_eq_emod_of_nonneg _ (by decide)] at hlast59
      rw [Int.fmod_eq_emod_of_nonneg _ (by decide)]
      omega
    rw [if_neg hleap, Nat.one_mul, hsec, parse?_text hmonths.1 hmonths.2 (by omega) (by omega) (by omega) (by omega),
      of?_dateOf hdate hfirst hlast (by rw [hsec]; rfl), if_pos rfl, Nat.sub_add_cancel (by omega)]

/-! ## (4) What is read can be written -/

/-- A number is bounded by the count of its digits. -/
theorem decimal_lt (hds : ∀ c ∈ ds, c.isDigit = true) : decimal ds < 10 ^ ds.length := by
  induction ds using List.reverseRecOn with
  | nil => decide
  | append_singleton ds c ih =>
    have hc := hds c (by simp)
    rw [Char.isDigit, Bool.and_eq_true, decide_eq_true_eq, decide_eq_true_eq] at hc
    have hlast : c.toNat ≤ 57 := UInt32.le_iff_toNat_le.1 hc.2
    have hbefore := ih fun c' hc' => hds c' (List.mem_append_left _ hc')
    rw [decimal, List.foldl_append, ← decimal, List.length_append, List.length_singleton, Nat.pow_succ]
    simp only [List.foldl_cons, List.foldl_nil]
    omega

/-- Digits that are read are digits, and not more than asked for. -/
theorem exists_of_digits? {cs : List Char} (h : digits? most cs = some (ds, rest)) :
    ds.length ≤ most ∧ ∀ c ∈ ds, c.isDigit = true := by
  simp only [digits?] at h
  split at h
  · cases h
  · cases h
    refine ⟨(List.takeWhile_sublist _).length_le.trans (List.length_take_le _ _), fun c hc => ?_⟩
    exact List.all_eq_true.1 List.all_takeWhile c hc

/-- A fraction is less than a second. -/
theorem nanos_of_fraction? {cs : List Char} (h : fraction? cs = some (n, rest)) : n < second := by
  unfold fraction? at h
  split at h
  · obtain ⟨⟨ds, after⟩, hdigits, h⟩ := Option.bind_eq_some_iff.1 h
    obtain ⟨hlength, hds⟩ := exists_of_digits? hdigits
    cases h
    have hall : ∀ c ∈ ds ++ List.replicate (9 - ds.length) '0', c.isDigit = true := by
      intro c hc
      rcases List.mem_append.1 hc with hc | hc
      · exact hds c hc
      · rw [List.eq_of_mem_replicate hc]
        decide
    have hlt := decimal_lt hall
    rw [List.length_append, List.length_replicate, Nat.add_sub_cancel' hlength] at hlt
    exact hlt
  · cases h
    decide

/-- A distance from universal time is one of whole minutes. -/
theorem minutes_of_offset? {cs : List Char} {offset : Int} (h : offset? cs = some (offset, rest)) :
    offset % 60 = 0 := by
  -- What follows the sign counts whole minutes.
  have hdistance : ∀ cs n rest, distance? cs = some (n, rest) → n % 60 = 0 := by
    intro cs n rest h
    unfold distance? at h
    split at h
    · split at h
      · obtain ⟨m, -, h⟩ := Option.bind_eq_some_iff.1 h
        cases h
        omega
      · cases h
    · cases h
  unfold offset? at h
  split at h
  · cases h
    rfl
  split at h
  · cases h
    rfl
  · cases h
    rfl
  · obtain ⟨⟨n, after⟩, hn, h⟩ := Option.map_eq_some_iff.1 h
    cases h
    have := hdistance _ _ _ hn
    omega
  · obtain ⟨⟨n, after⟩, hn, h⟩ := Option.map_eq_some_iff.1 h
    cases h
    have := hdistance _ _ _ hn
    omega
  · obtain ⟨⟨n, after⟩, hn, h⟩ := Option.map_eq_some_iff.1 h
    cases h
    have := hdistance _ _ _ hn
    omega
  · cases h

/-- **A timestamp that is read can be written.** -/
theorem writable_of_parse? {s : String} {t : Timestamp} (h : parse? s = some t) : t.Writable := by
  obtain ⟨⟨⟨year, month, day⟩, cs⟩, -, h⟩ := Option.bind_eq_some_iff.1 h
  obtain ⟨cs', -, h⟩ := Option.bind_eq_some_iff.1 h
  obtain ⟨⟨⟨hour, minute, sec, nanos⟩, cs₁⟩, htime, h⟩ := Option.bind_eq_some_iff.1 h
  obtain ⟨⟨offset, cs₂⟩, hoffset, h⟩ := Option.bind_eq_some_iff.1 h
  have hminutes := minutes_of_offset? hoffset
  have hnanos : nanos < second := by
    obtain ⟨⟨_, _⟩, -, htime⟩ := Option.bind_eq_some_iff.1 htime
    obtain ⟨_, -, htime⟩ := Option.bind_eq_some_iff.1 htime
    obtain ⟨⟨_, _⟩, -, htime⟩ := Option.bind_eq_some_iff.1 htime
    obtain ⟨_, -, htime⟩ := Option.bind_eq_some_iff.1 htime
    obtain ⟨⟨_, _⟩, -, htime⟩ := Option.bind_eq_some_iff.1 htime
    obtain ⟨⟨_, _⟩, hfraction, htime⟩ := Option.bind_eq_some_iff.1 htime
    cases htime
    exact nanos_of_fraction? hfraction
  dsimp only at h
  split at h
  case isFalse => cases h
  -- The sixtieth second is counted as the one before it.
  by_cases hleap : sec = 60
  · subst hleap
    simp only [of?, ↓reduceIte] at h
    split at h
    · next hrange =>
      obtain ⟨-, -, -, -, -, -, -, hfirst, hlast⟩ := hrange
      cases h
      refine ⟨hfirst, hlast, .inr ⟨by dsimp only; omega, ?_⟩⟩
      rw [Int.fmod_eq_emod_of_nonneg _ (by decide), Calendar.secondsOf]
      dsimp only
      omega
    · cases h
  · simp only [of?, if_neg hleap] at h
    split at h
    · next hrange =>
      obtain ⟨-, -, -, -, -, -, -, hfirst, hlast⟩ := hrange
      cases h
      exact ⟨hfirst, hlast, .inl hnanos⟩
    · cases h

end Timestamp

end LayeredBundles
