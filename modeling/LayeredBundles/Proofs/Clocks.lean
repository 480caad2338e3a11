import LayeredBundles.Archive.MachineTime
import LayeredBundles.Proofs.Leftovers
import LayeredBundles.Proofs.Positions

/-! # Times that are stamped on files and read back

On machine words a recorded timestamp becomes a time and is read back in whole seconds without a stop, whatever the
timestamp. Each step is told by the nanoseconds since 1970: a time that is later or earlier by some length is found
exactly if there is one, and the distance of two times is exact though the words of its seconds may wrap. What is read
back is rounded down, also before 1970, for every time but the first one there is. That one lies a second more before
1970 than a signed word counts, so it is read as a second later, and a file that is stamped with it is not found fresh.

* **`MachineTime.later?_eq_some`**, **`MachineTime.earlier?_eq_some`**, **`MachineTime.total_ahead`** — times and their
  distances by nanoseconds;
* **`MachineTime.ofTimestamp_eq`** — a recorded timestamp is a time;
* **`MachineTime.exists_wholeSeconds`** — a time in whole seconds;
* **`FileTree.exists_stamp`** — a stamp stays on its file;
* **`Entry.times_survive_iff`** — what is read back of a recorded time. -/

namespace LayeredBundles

/-! ## (1) Words -/

namespace MachineTime

variable {a n : Int64} {b : UInt64} {t u : MachineTime} {d : TimeSpan}

/-- A word that is taken for a signed one counts down from zero in its upper half. -/
theorem toNat_eq (b : UInt64) :
    (b.toNat : Int) = if b.toInt64.toInt < 0 then b.toInt64.toInt + 2 ^ 64 else b.toInt64.toInt :=
  Cursor.toNat_toUInt64 b.toInt64

/-- A checked sum is the sum of the numbers. -/
theorem plus?_eq_some {c : Int64} : plus? a b = some c ↔ c.toInt = a.toInt + b.toNat := by
  have hb := toNat_eq b
  have hsum := Int64.toInt_add a b.toInt64
  have hbounds := And.intro a.le_toInt a.toInt_lt
  have hbounds' := And.intro c.le_toInt c.toInt_lt
  rw [Int.bmod_def] at hsum
  unfold plus?
  rw [Int64.toInt_maxValue]
  split
  · rw [Option.some.injEq, ← Int64.toInt_inj, hsum]
    split_ifs at hb ⊢ <;> omega
  · simp only [reduceCtorEq, false_iff]
    omega

/-- There is one wherever the sum is within range. -/
theorem exists_plus? (h : a.toInt + b.toNat < 2 ^ 63) : ∃ c, plus? a b = some c ∧ c.toInt = a.toInt + b.toNat := by
  have hle : a.toInt + b.toNat ≤ Int64.maxValue.toInt := by
    rw [Int64.toInt_maxValue]
    omega
  exact ⟨_, if_pos hle, plus?_eq_some.1 (if_pos hle)⟩

/-- A checked difference is the difference of the numbers. -/
theorem minus?_eq_some {c : Int64} : minus? a b = some c ↔ c.toInt = a.toInt - b.toNat := by
  have hb := toNat_eq b
  have hdifference := Int64.toInt_sub a b.toInt64
  have hbounds := And.intro a.le_toInt a.toInt_lt
  have hbounds' := And.intro c.le_toInt c.toInt_lt
  rw [Int.bmod_def] at hdifference
  unfold minus?
  rw [Int64.toInt_minValue]
  split
  · rw [Option.some.injEq, ← Int64.toInt_inj, hdifference]
    split_ifs at hb ⊢ <;> omega
  · simp only [reduceCtorEq, false_iff]
    omega

/-- There is one wherever the difference is within range. -/
theorem exists_minus? (h : -(2 ^ 63) ≤ a.toInt - b.toNat) : ∃ c, minus? a b = some c ∧ c.toInt = a.toInt - b.toNat := by
  rw [← Int64.toInt_minValue] at h
  exact ⟨_, if_pos h, minus?_eq_some.1 (if_pos h)⟩

/-- A number of seconds too great for a signed word becomes the greatest of them. -/
theorem toInt_saturated (n : UInt64) : (saturated n).toInt = min (n.toNat : Int) (2 ^ 63 - 1) := by
  have hn := toNat_eq n
  have hlow := n.toInt64.le_toInt
  have hhigh := n.toInt64.toInt_lt
  have hgreatest : n ≤ Int64.maxValue.toUInt64 ↔ n.toNat ≤ 2 ^ 63 - 1 := UInt64.le_iff_toNat_le
  unfold saturated
  split
  · next hfits =>
    rw [hgreatest] at hfits
    split_ifs at hn <;> omega
  · next hlarge =>
    rw [hgreatest] at hlarge
    rw [Int64.toInt_maxValue]
    omega

/-- What is not negative can be negated. -/
theorem exists_negated (h : 0 ≤ n.toInt) : ∃ m, negated n = .ok m ∧ m.toInt = -n.toInt := by
  have hne : n ≠ Int64.minValue := fun heq => by
    rw [heq] at h
    exact absurd h (by decide)
  refine ⟨-n, if_neg hne, ?_⟩
  have hhigh := n.toInt_lt
  rw [Int64.toInt_neg, Int.bmod_def]
  split <;> omega

/-- One less is taken without overflow above the least word. -/
theorem toInt_sub_one (h : -(2 ^ 63) < n.toInt) : (n - 1).toInt = n.toInt - 1 := by
  have hhigh := n.toInt_lt
  have hone : (1 : Int64).toInt = 1 := by decide
  rw [Int64.toInt_sub, hone, Int.bmod_def]
  split <;> omega

/-- One can be taken from all but the least word. -/
theorem exists_oneLess (h : -(2 ^ 63) < n.toInt) : ∃ m, oneLess n = .ok m ∧ m.toInt = n.toInt - 1 := by
  have hne : n ≠ Int64.minValue := fun heq => by
    rw [heq] at h
    exact absurd h (by decide)
  exact ⟨n - 1, if_neg hne, toInt_sub_one h⟩

/-! ## (2) Times by their nanoseconds -/

/-- A time in nanoseconds is its seconds and what is left over. -/
theorem total_toInstant (t : MachineTime) : t.toInstant.total = t.seconds.toInt * 1000000000 + t.nanos.toNat := rfl

/-- Times are told apart by their nanoseconds since 1970. -/
theorem eq_of_total (h : t.toInstant.total = u.toInstant.total) : t = u := by
  have ht := t.nanos_lt
  have hu := u.nanos_lt
  rw [total_toInstant, total_toInstant] at h
  have hseconds : t.seconds = u.seconds := Int64.toInt_inj.1 (by omega)
  have hnanos : t.nanos = u.nanos := UInt32.toNat_inj.1 (by omega)
  cases t
  cases u
  cases hseconds
  cases hnanos
  rfl

/-- What has the seconds and the nanoseconds of a time is that time. -/
theorem mk_eq {seconds : Int64} {nanos : UInt32} {hnanos : nanos.toNat < 1000000000}
    (h : seconds.toInt * 1000000000 + nanos.toNat = t.toInstant.total) : (⟨seconds, nanos, hnanos⟩ : MachineTime) = t :=
  eq_of_total h

/-- **A time later by some length** is found if there is one. -/
theorem later?_eq_some (h : u.toInstant.total = t.toInstant.total + d.total) : t.later? d = some u := by
  have hbounds := And.intro u.nanos_lt (And.intro t.nanos_lt d.nanos_lt)
  have hsum := toNat_sum t.nanos_lt d.nanos_lt
  have hone : (1 : UInt64).toNat = 1 := rfl
  have hhigh := u.seconds.toInt_lt
  rw [total_toInstant, total_toInstant, TimeSpan.total] at h
  unfold later?
  by_cases hfull : t.nanos + d.nanos < 1000000000
  · have hnanos := lt_second_iff.1 hfull
    have hseconds : plus? t.seconds d.seconds = some u.seconds := plus?_eq_some.2 (by omega)
    rw [hseconds, Option.bind_eq_bind, Option.bind_some, dif_pos hfull]
    exact congrArg some (mk_eq (by rw [total_toInstant]; omega))
  · have hnanos := mt lt_second_iff.2 hfull
    have hcarried := toNat_carried t.nanos_lt d.nanos_lt hfull
    obtain ⟨seconds, hseconds, hnumber⟩ := exists_plus? (a := t.seconds) (b := d.seconds) (by omega)
    have hcarry : plus? seconds 1 = some u.seconds := plus?_eq_some.2 (by omega)
    rw [hseconds, Option.bind_eq_bind, Option.bind_some, dif_neg hfull, hcarry]
    exact congrArg some (mk_eq (by rw [total_toInstant]; omega))

/-- **A time earlier by some length** is found if there is one. -/
theorem earlier?_eq_some (h : u.toInstant.total = t.toInstant.total - d.total) : t.earlier? d = some u := by
  have hbounds := And.intro u.nanos_lt (And.intro t.nanos_lt d.nanos_lt)
  have hone : (1 : UInt64).toNat = 1 := rfl
  have hlow := u.seconds.le_toInt
  rw [total_toInstant, total_toInstant, TimeSpan.total] at h
  unfold earlier?
  by_cases hleft : d.nanos ≤ t.nanos
  · have hnanos := UInt32.le_iff_toNat_le.1 hleft
    have hrest := UInt32.toNat_sub_of_le _ _ hleft
    have hseconds : minus? t.seconds d.seconds = some u.seconds := minus?_eq_some.2 (by omega)
    rw [hseconds, Option.bind_eq_bind, Option.bind_some, dif_pos hleft]
    exact congrArg some (mk_eq (by rw [total_toInstant]; omega))
  · have hnanos := mt UInt32.le_iff_toNat_le.2 hleft
    have hborrowed := toNat_borrowed t.nanos_lt d.nanos_lt
    obtain ⟨seconds, hseconds, hnumber⟩ := exists_minus? (a := t.seconds) (b := d.seconds) (by omega)
    have hborrow : minus? seconds 1 = some u.seconds := minus?_eq_some.2 (by omega)
    rw [hseconds, Option.bind_eq_bind, Option.bind_some, dif_neg hleft, hborrow]
    exact congrArg some (mk_eq (by rw [total_toInstant]; omega))

/-- Times are ordered by their nanoseconds since 1970. -/
theorem notAfter_iff : notAfter u t = true ↔ u.toInstant.total ≤ t.toInstant.total := by
  have hbounds := And.intro u.nanos_lt t.nanos_lt
  rw [total_toInstant, total_toInstant]
  simp only [notAfter, Bool.or_eq_true, Bool.and_eq_true, decide_eq_true_eq, Int64.lt_iff_toInt_lt,
    ← Int64.toInt_inj, UInt32.le_iff_toNat_le]
  omega

/-- The signed difference of two words, without its sign: it is exact though it may wrap. -/
theorem toNat_difference (h : n.toInt ≤ a.toInt) : ((a - n).toUInt64.toNat : Int) = a.toInt - n.toInt := by
  have hword := Cursor.toNat_toUInt64 (a - n)
  have hbounds := And.intro a.toInt_lt n.le_toInt
  rw [Int64.toInt_sub, Int.bmod_def] at hword
  split_ifs at hword <;> omega

/-- **The distance of two times** is exact. -/
theorem total_ahead (h : u.toInstant.total ≤ t.toInstant.total) :
    ((t.ahead u).total : Int) = t.toInstant.total - u.toInstant.total := by
  have hbounds := And.intro u.nanos_lt t.nanos_lt
  rw [total_toInstant, total_toInstant] at *
  unfold ahead
  split
  · next hleft =>
    have hnanos := UInt32.le_iff_toNat_le.1 hleft
    have hseconds := toNat_difference (n := u.seconds) (a := t.seconds) (by omega)
    dsimp only [TimeSpan.total]
    rw [UInt32.toNat_sub_of_le _ _ hleft]
    omega
  · next hleft =>
    have hnanos := mt UInt32.le_iff_toNat_le.2 hleft
    have hlow := u.seconds.le_toInt
    have hone := toInt_sub_one (n := t.seconds) (by omega)
    have hseconds := toNat_difference (n := u.seconds) (a := t.seconds - 1) (by omega)
    dsimp only [TimeSpan.total]
    rw [toNat_borrowed t.nanos_lt u.nanos_lt]
    omega

/-! ## (3) Timestamps and whole seconds -/

/-- The absolute value is a word without a sign, also that of the least signed word. -/
theorem toNat_abs (n : Int64) : n.abs.toUInt64.toNat = n.toInt.natAbs := by
  have hword : n.abs.toUInt64.toNat = n.toBitVec.abs.toNat := rfl
  have hvalue : n.toInt = n.toBitVec.toInt := rfl
  have hlt := n.toBitVec.isLt
  rw [hword, hvalue, BitVec.toNat_abs, BitVec.toInt_eq_msb_cond]
  split <;> omega

/-- **A recorded timestamp is a time.** -/
theorem ofTimestamp_eq (timestamp : Int64) : ofTimestamp timestamp = .ok ⟨timestamp, 0, by decide⟩ := by
  have hdistance : (⟨timestamp.abs.toUInt64, 0, by decide⟩ : TimeSpan).total = timestamp.toInt.natAbs * 1000000000 :=
    (Nat.add_zero _).trans (congrArg (· * 1000000000) (toNat_abs timestamp))
  have htotal : (⟨timestamp, 0, by decide⟩ : MachineTime).toInstant.total = timestamp.toInt * 1000000000 :=
    Int.add_zero _
  have hepoch : epoch.toInstant.total = 0 := rfl
  unfold ofTimestamp
  dsimp only
  split
  · next hlater =>
    have hsign := Int64.le_iff_toInt_le.1 hlater
    rw [Int64.toInt_zero] at hsign
    rw [later?_eq_some (u := ⟨timestamp, 0, by decide⟩) (by omega)]
    rfl
  · next hearlier =>
    have hsign := mt Int64.le_iff_toInt_le.2 hearlier
    rw [Int64.toInt_zero] at hsign
    rw [earlier?_eq_some (u := ⟨timestamp, 0, by decide⟩) (by omega)]
    rfl

/-- The least time is the one with the least number of seconds and nothing left over. -/
theorem eq_least_iff : t = least ↔ t.seconds.toInt = -(2 ^ 63) ∧ t.nanos.toNat = 0 := by
  constructor
  · rintro rfl
    decide
  · rintro ⟨hseconds, hnanos⟩
    refine eq_of_total ?_
    rw [total_toInstant, hseconds, hnanos]
    rfl

/-- **A time in whole seconds** is rounded down, the first one excepted. -/
theorem exists_wholeSeconds (t : MachineTime) : ∃ n, t.wholeSeconds = .ok n ∧
    n.toInt = if t = least then t.seconds.toInt + 1 else t.seconds.toInt := by
  have hbounds := And.intro t.seconds.le_toInt t.seconds.toInt_lt
  have hnanos := t.nanos_lt
  have htotal := t.total_toInstant
  have hepoch : epoch.toInstant.total = 0 := rfl
  simp only [eq_least_iff]
  cases hpast : notAfter epoch t with
  | true =>
    have horder := notAfter_iff.1 hpast
    have hdistance := total_ahead horder
    have hrest := (t.ahead epoch).nanos_lt
    -- From 1970 on the whole seconds of the distance are the answer.
    have hrun : t.wholeSeconds = .ok (saturated (t.ahead epoch).seconds) := by
      rw [wholeSeconds, since, hpast]
      rfl
    rw [TimeSpan.total] at hdistance
    refine ⟨_, hrun, ?_⟩
    rw [toInt_saturated, if_neg (by omega)]
    omega
  | false =>
    have horder := mt notAfter_iff.2 (Bool.eq_false_iff.1 hpast)
    have hdistance := total_ahead (t := epoch) (u := t) (by omega)
    have hrest := (epoch.ahead t).nanos_lt
    have hwhole := toInt_saturated (epoch.ahead t).seconds
    rw [TimeSpan.total] at hdistance
    -- Before 1970 the distance is saturated and then negated, which is what loses the least time.
    obtain ⟨n, hn, hnumber⟩ := exists_negated (n := saturated (epoch.ahead t).seconds) (by omega)
    have hrun : t.wholeSeconds = if 0 < (epoch.ahead t).nanos then oneLess n else .ok n := by
      rw [wholeSeconds, since, hpast]
      exact congrArg (· >>= _) hn
    have hpos : 0 < (epoch.ahead t).nanos ↔ 0 < (epoch.ahead t).nanos.toNat := UInt32.lt_iff_toNat_lt
    by_cases hmore : 0 < (epoch.ahead t).nanos
    · -- The second that has begun is another one before 1970, and the words reach one further there.
      obtain ⟨m, hm, hless⟩ := exists_oneLess (n := n) (by omega)
      refine ⟨m, hrun.trans ((if_pos hmore).trans hm), ?_⟩
      rw [hpos] at hmore
      rw [hless, hnumber, hwhole, if_neg (by omega)]
      omega
    · refine ⟨n, hrun.trans (if_neg hmore), ?_⟩
      rw [hpos] at hmore
      rw [hnumber, hwhole]
      split <;> omega

/-- The instant that is counted, in whole seconds. -/
theorem wholeSeconds_toInstant (t : MachineTime) :
    t.toInstant.wholeSeconds = if t = least then t.seconds.toInt + 1 else t.seconds.toInt := by
  rw [Instant.wholeSeconds_eq _ t.seconds.le_toInt t.seconds.toInt_lt]
  exact if_congr eq_least_iff.symm rfl rfl

/-- The seconds of a time are its nanoseconds since 1970, divided and rounded down. -/
theorem fdiv_total (t : MachineTime) : t.toInstant.total.fdiv 1000000000 = t.seconds.toInt := by
  have hnanos := t.nanos_lt
  rw [Int.fdiv_eq_ediv_of_nonneg _ (by decide), total_toInstant]
  omega

/-- The time of a recorded timestamp is the instant of the entry. -/
theorem toInstant_eq_modified {e : Entry} {timestamp : Int64} (h : e.timestamp = timestamp.toInt) :
    toInstant ⟨timestamp, 0, by decide⟩ = e.modified := by
  obtain ⟨hseconds, hnanos⟩ := e.modified_eq
  rw [h] at hseconds
  rcases hmodified : e.modified with ⟨seconds, nanos, hlt⟩
  rw [hmodified] at hseconds hnanos
  cases hseconds
  cases hnanos
  rfl

end MachineTime

/-! ## (4) Files -/

namespace FileTree

variable {t : FileTree} {p : Place} {path : String} {c : ByteArray} {m : Instant}

/-- A file never stands at the root. -/
theorem ne_root_of_file (hfile : t.node? p = some (.file c m)) : p ≠ [] := by
  rintro rfl
  rw [node?_root] at hfile
  cases hfile

/-- Another time on a file changes no directory and no link. -/
theorem upholds_bind_file (hfile : t.node? p = some (.file c m)) (m' : Instant) :
    t.Upholds (t.bind p (.file c m')) := by
  refine ⟨rfl, fun v n hn hnode => ?_⟩
  rw [node?_bind _ (ne_root_of_file hfile), if_neg, hnode]
  rintro rfl
  rw [hfile] at hnode
  cases hnode
  cases hn

/-- **A stamp stays on its file**, which keeps its contents. -/
theorem exists_stamp (hlook : t.look false path = .ok (.file c m)) (m' : Instant) :
    ∃ t', t.stamp path m' = .ok t' ∧ t'.look false path = .ok (.file c m') := by
  obtain ⟨p, slash, hlocate, hfile⟩ := exists_of_look hlook
  have hfile' : (t.bind p (.file c m')).node? p = some (.file c m') := by
    rw [node?_bind _ (ne_root_of_file hfile), if_pos rfl]
  -- The stamp follows a link at the end, and there is none.
  have hthrough := (Upholds.refl t).locate_file hlocate hfile hfile true
  have hlocate' := (upholds_bind_file hfile m').locate_file hlocate hfile hfile' false
  refine ⟨t.bind p (.file c m'), ?_, ?_⟩
  · rw [stamp, hthrough]
    simp only [hfile]
  · rw [look, hlocate']
    simp only [hfile']

end FileTree

/-- **Recorded times survive, the first one excepted.** A recorded timestamp becomes a time and is read back in whole
seconds without a stop, and what is read is the timestamp exactly if that is not the least signed word. Any time in
whole seconds is rounded down without a stop, but the first one there is, which is read as a second later. So a file
that has the time of an entry is fresh exactly if it has the size of the entry and the timestamp is not the least one;
and every file can be stamped with that time and has it then. -/
theorem Entry.times_survive_iff (e : Entry) (timestamp : Int64) (htimestamp : e.timestamp = timestamp.toInt) :
    (∃ time n, MachineTime.ofTimestamp timestamp = .ok time ∧ time.toInstant = e.modified ∧
      time.wholeSeconds = .ok n ∧ n.toInt = e.modified.wholeSeconds ∧ (n = timestamp ↔ timestamp ≠ Int64.minValue)) ∧
    (∀ time : MachineTime, ∃ n, time.wholeSeconds = .ok n ∧ n.toInt = time.toInstant.wholeSeconds ∧
      n.toInt = time.toInstant.total.fdiv 1000000000 + if time = MachineTime.least then 1 else 0) ∧
    (∀ (t : FileTree) (path : String) (c : ByteArray), t.look false path = .ok (.file c e.modified) →
      (Extraction.isFresh t path e = true ↔ c.size = e.size ∧ timestamp ≠ Int64.minValue)) ∧
    ∀ (t : FileTree) (path : String) (c : ByteArray) (m : Instant), t.look false path = .ok (.file c m) →
      ∃ t', t.stamp path e.modified = .ok t' ∧ t'.look false path = .ok (.file c e.modified) := by
  have hmodified := MachineTime.toInstant_eq_modified htimestamp
  -- The time of an entry has no nanoseconds, so it is the least one if its timestamp is.
  have hleast : (⟨timestamp, 0, by decide⟩ : MachineTime) = MachineTime.least ↔ timestamp = Int64.minValue := by
    rw [MachineTime.eq_least_iff, ← Int64.toInt_inj, Int64.toInt_minValue]
    exact and_iff_left rfl
  have hread : e.modified.wholeSeconds =
      if timestamp = Int64.minValue then timestamp.toInt + 1 else timestamp.toInt := by
    rw [← hmodified, MachineTime.wholeSeconds_toInstant]
    exact if_congr hleast rfl rfl
  have hsame : e.modified.wholeSeconds = timestamp.toInt ↔ timestamp ≠ Int64.minValue := by
    rw [hread]
    split <;> simp_all
  refine ⟨?_, fun time => ?_, fun t path c hlook => ?_, fun t path c m hlook => FileTree.exists_stamp hlook _⟩
  · obtain ⟨n, hn, hnumber⟩ := MachineTime.exists_wholeSeconds ⟨timestamp, 0, by decide⟩
    have hwhole : n.toInt = e.modified.wholeSeconds := by
      rw [hnumber, ← MachineTime.wholeSeconds_toInstant, hmodified]
    refine ⟨_, n, MachineTime.ofTimestamp_eq timestamp, hmodified, hn, hwhole, ?_⟩
    rw [← Int64.toInt_inj, hwhole, hsame]
  · obtain ⟨n, hn, hnumber⟩ := time.exists_wholeSeconds
    refine ⟨n, hn, hnumber.trans time.wholeSeconds_toInstant.symm, ?_⟩
    rw [hnumber, time.fdiv_total]
    split <;> simp
  · rw [Extraction.isFresh_iff hlook, htimestamp, hsame]

/-- A tree with an empty file. -/
def FileTree.oneFile : FileTree := ⟨[(["a.txt"], .file .empty Instant.epoch)], []⟩

/-- One second after the least one, a time is stamped, read back and found fresh. -/
theorem Entry.earliest_survives :
    let e := Entry.file "a.txt" 0 (-9223372036854775807)
    e.timestamp = (Int64.minValue + 1).toInt ∧
    FileTree.oneFile.look false "/a.txt" = .ok (.file .empty Instant.epoch) ∧
    ∃ t', FileTree.oneFile.stamp "/a.txt" e.modified = .ok t' ∧
      t'.look false "/a.txt" = .ok (.file .empty e.modified) ∧ Extraction.isFresh t' "/a.txt" e = true := by
  intro e
  have htimestamp : e.timestamp = (Int64.minValue + 1).toInt := by decide
  have hlook : FileTree.oneFile.look false "/a.txt" = .ok (.file .empty Instant.epoch) := by decide +kernel
  obtain ⟨-, -, hfresh, hstamp⟩ := Entry.times_survive_iff e _ htimestamp
  obtain ⟨t', ht', hlook'⟩ := hstamp _ _ _ _ hlook
  exact ⟨htimestamp, hlook, t', ht', hlook', (hfresh _ _ _ hlook').2 ⟨rfl, by decide⟩⟩

/-- **The least timestamp is not read back.** A file is stamped with it, and the first time there is, which it names, is
read as a second later. So the file is not fresh. Half a second later the time is rounded down as it should be. -/
theorem Entry.first_time_lost :
    let e := Entry.file "a.txt" 0 (-9223372036854775808)
    (MachineTime.ofTimestamp Int64.minValue).bind MachineTime.wholeSeconds = .ok (-9223372036854775807) ∧
    e.modified.wholeSeconds = -9223372036854775807 ∧
    MachineTime.least.toInstant = e.modified ∧ e.modified.total.fdiv 1000000000 = -9223372036854775808 ∧
    (⟨Int64.minValue, 500000000, by decide⟩ : MachineTime).wholeSeconds = .ok Int64.minValue ∧
    (FileTree.oneFile.stamp "/a.txt" e.modified).map (Extraction.isFresh · "/a.txt" e) = .ok false := by
  decide +kernel

end LayeredBundles
