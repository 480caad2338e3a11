import LayeredBundles.Archive.Medium
import LayeredBundles.Proofs.Bytes
import Mathlib.Algebra.Group.Int.Defs

/-! # Cursors are positions

A cursor computes its position with words of 64 bits. Over bytes in memory it is nevertheless a plain number: sums that
a seek would refuse are exactly those outside the words, and a read moves on by no more than there is, so its sum is a
word. Several cursors over the same bytes, with clones made on the way, are as many numbers, none of which a call on
another one moves.

* **`Cursor.addSigned?_eq`** — the carry tells whether the sum is a word;
* **`Cursor.Call`**, **`Cursor.Reply`** — what is asked of a cursor, and what it answers;
* **`Position.perform`** — what a number would answer;
* **`Cursor.perform_eq`** — a cursor answers as its position does;
* **`Pool.run`** — calls on several cursors one after another;
* **`Pool.run_map`**, **`Pool.run_at`** — many cursors are as many positions, each on its own;
* **`Medium.copyAt_eq`** — no index goes wrong on the way;
* **`Cursor.cursors_are_positions`** — all this together. -/

namespace LayeredBundles

/-! ## (1) Sums of words -/

namespace Cursor

/-- A signed word as a word: what is below zero counts down from the end. -/
theorem toNat_toUInt64 (delta : Int64) : (delta.toUInt64.toNat : Int)
    = if delta.toInt < 0 then delta.toInt + 2 ^ 64 else delta.toInt := by
  have hsigned : delta.toInt = _ := BitVec.toInt_eq_toNat_cond delta.toBitVec
  have hword : delta.toBitVec.toNat = delta.toUInt64.toNat := rfl
  have hlt := delta.toUInt64.toNat_lt
  rw [hword] at hsigned
  split_ifs at hsigned ⊢ <;> omega

/-- **The carry tells whether the sum is a word.** -/
theorem addSigned?_eq (a : UInt64) (delta : Int64) : (addSigned? a delta).map UInt64.toNat =
    if 0 ≤ a.toNat + delta.toInt ∧ a.toNat + delta.toInt ≤ 2 ^ 64 - 1 then some (a.toNat + delta.toInt).toNat
    else none := by
  have hword := toNat_toUInt64 delta
  have ha := a.toNat_lt
  have hlow := delta.le_toInt
  have hhigh := delta.toInt_lt
  have hneg : delta < 0 ↔ delta.toInt < 0 := Int64.lt_iff_toInt_lt
  have hsum : (a + delta.toUInt64).toNat = (a.toNat + delta.toUInt64.toNat) % 2 ^ 64 := UInt64.toNat_add _ _
  have hcarry : a + delta.toUInt64 < a ↔ (a + delta.toUInt64).toNat < a.toNat := UInt64.lt_iff_toNat_lt
  split
  · next hfits =>
    -- In range, a sum wraps round exactly if the delta is negative.
    have hsame : a + delta.toUInt64 < a ↔ delta < 0 := by
      rw [hcarry, hneg]
      split_ifs at hword <;> omega
    have hnumber : (a + delta.toUInt64).toNat = (a.toNat + delta.toInt).toNat := by
      split_ifs at hword <;> omega
    have hflag : (decide (a + delta.toUInt64 < a) ^^ decide (delta < 0)) = false := by
      rw [decide_eq_decide.2 hsame, Bool.xor_self]
    simp [addSigned?, hflag, hnumber]
  · next hout =>
    -- Out of range, it wraps exactly if the delta is not negative.
    have hdiffer : a + delta.toUInt64 < a ↔ ¬ delta < 0 := by
      rw [hcarry, hneg]
      split_ifs at hword <;> omega
    have hflag : (decide (a + delta.toUInt64 < a) ^^ decide (delta < 0)) = true := by
      rw [decide_eq_decide.2 hdiffer, decide_not, Bool.not_xor_self]
    simp [addSigned?, hflag]

end Cursor

/-! ## (2) Calls and replies -/

namespace Cursor

/-- What is asked of a cursor. -/
inductive Call where
  /-- To move. -/
  | seek (s : Seek)
  /-- To read up to some count of bytes. -/
  | read (count : Nat)
  /-- Where it is. -/
  | position
  /-- To be doubled. -/
  | clone
  deriving DecidableEq

/-- What is answered. -/
inductive Reply where
  /-- The position moved to. -/
  | moved (position : Nat)
  /-- A seek is refused. -/
  | refused (message : String)
  /-- The bytes read. -/
  | piece (bytes : List UInt8)
  /-- The position. -/
  | position (position : Nat)
  /-- There is a clone. -/
  | cloned
  deriving DecidableEq

/-- A call on a cursor. -/
def perform (c : Cursor) : Call → Cursor × Reply
  | .seek s =>
    match c.seek s with
    | some c' => (c', .moved c'.position)
    | none => (c, .refused seekRefused)
  | .read count => ((c.read count).2, .piece (c.read count).1.toList)
  | .position => (c, .position c.position)
  | .clone => (c, .cloned)

end Cursor

/-- The number a seek aims at, from a position in some count of bytes. -/
def Seek.goal (size position : Nat) : Seek → Int
  | .offset n => n.toNat
  | .beyondEnd delta => size + delta.toInt
  | .onward delta => position + delta.toInt

/-- **A call on a position** in a list of bytes. A seek sets it to the number aimed at, if that lies between zero and
the greatest word, and otherwise leaves it. A read takes what stands from there on, up to the count asked for, and moves
on by as much. -/
def Position.perform (bytes : List UInt8) (p : Nat) : Cursor.Call → Nat × Cursor.Reply
  | .seek s =>
    if 0 ≤ s.goal bytes.length p ∧ s.goal bytes.length p ≤ 2 ^ 64 - 1 then
      ((s.goal bytes.length p).toNat, .moved (s.goal bytes.length p).toNat)
    else (p, .refused Cursor.seekRefused)
  | .read count => (p + ((bytes.drop p).take count).length, .piece ((bytes.drop p).take count))
  | .position => (p, .position p)
  | .clone => (p, .cloned)

/-! ## (3) One cursor -/

namespace Cursor

variable {d : ByteArray} {c : Cursor} {call : Call}

/-- A source within memory has a length that fits a word. -/
theorem length_bytes (hd : d.size < 2 ^ 64) : (UInt64.ofNat d.size).toNat = d.toList.length := by
  rw [UInt64.toNat_ofNat_of_lt' hd, Bytes.length_toList]

/-- A seek aims at the number it should, if that is a word. -/
theorem target?_eq (hd : d.size < 2 ^ 64) (hc : c.medium = .ofBytes d) (s : Seek) :
    (c.target? s).map UInt64.toNat =
      if 0 ≤ s.goal d.toList.length c.position ∧ s.goal d.toList.length c.position ≤ 2 ^ 64 - 1 then
        some (s.goal d.toList.length c.position).toNat
      else none := by
  cases s with
  | offset offset =>
    have hlt := offset.toNat_lt
    rw [if_pos (by simp only [Seek.goal]; omega)]
    rfl
  | beyondEnd delta =>
    rw [target?, hc, Medium.size, Medium.bytes_ofBytes, addSigned?_eq, length_bytes hd]
    rfl
  | onward delta => exact addSigned?_eq c.place delta

/-- A read takes what stands from the position on. -/
theorem toList_read (hc : c.medium = .ofBytes d) (count : Nat) :
    (c.read count).1.toList = (d.toList.drop c.position).take count := by
  rw [read, hc, Medium.fetch_ofBytes, Bytes.toList_extract, List.drop_take, Nat.add_sub_cancel_left]

/-- **The sum of a read is a word.** -/
theorem position_read (hd : d.size < 2 ^ 64) (hc : c.medium = .ofBytes d) (count : Nat) :
    (c.read count).2.position = c.position + (c.read count).1.toList.length := by
  have hlength : (c.read count).1.toList.length ≤ d.size - c.position := by
    rw [toList_read hc, ← Bytes.length_toList d, ← List.length_drop]
    exact List.length_take_le' _ _
  have hplace : (c.read count).2.position = (c.place + .ofNat (c.read count).1.size).toNat := rfl
  have hposition : c.place.toNat = c.position := rfl
  have hlt : c.position < 2 ^ 64 := c.place.toNat_lt
  have hword : (c.read count).1.toList.length < UInt64.size :=
    Nat.lt_of_le_of_lt (Nat.le_trans hlength (Nat.sub_le _ _)) hd
  rw [hplace, ← Bytes.length_toList, UInt64.toNat_add, UInt64.toNat_ofNat_of_lt' hword, hposition]
  -- Nothing is added at or past the end, and before it the sum stays below the end.
  omega

/-- **A cursor answers as its position does**, and stays over its bytes. -/
theorem perform_eq (hd : d.size < 2 ^ 64) (hc : c.medium = .ofBytes d) (call : Call) :
    (c.perform call).1.medium = .ofBytes d ∧
      Position.perform d.toList c.position call = ((c.perform call).1.position, (c.perform call).2) := by
  cases call with
  | seek s =>
    have htarget := target?_eq hd hc s
    rw [Position.perform]
    split
    · next hfits =>
      rw [if_pos hfits] at htarget
      obtain ⟨place, hplace, hnumber⟩ := Option.map_eq_some_iff.1 htarget
      have hseek : c.seek s = some { c with place } := by rw [seek, hplace, Option.map_some]
      rw [perform, hseek, ← hnumber]
      exact ⟨hc, rfl⟩
    · next hout =>
      rw [if_neg hout] at htarget
      have hseek : c.seek s = none := by rw [seek, Option.map_eq_none_iff.1 htarget, Option.map_none]
      rw [perform, hseek]
      exact ⟨hc, rfl⟩
  | read count =>
    refine ⟨hc, ?_⟩
    rw [perform, position_read hd hc, toList_read hc]
    rfl
  | position => exact ⟨hc, rfl⟩
  | clone => exact ⟨hc, rfl⟩

end Cursor

/-! ## (4) Many cursors -/

namespace Pool

open Cursor (Call Reply)

section Machines

variable {σ τ : Type} (perform : σ → Call → σ × Reply)

/-- A call on the `k`-th of some readers. A clone comes last; on a reader that is not there nothing is done. -/
def step (readers : List σ) (k : Nat) (call : Call) : List σ × Option Reply :=
  match readers[k]? with
  | none => (readers, none)
  | some c =>
    let after := readers.set k (perform c call).1
    (if call = .clone then after ++ [(perform c call).1] else after, some (perform c call).2)

/-- Calls on readers one after another: the readers at the end, and the replies with the readers that gave them. -/
def run (readers : List σ) : List (Nat × Call) → List σ × List (Nat × Option Reply)
  | [] => (readers, [])
  | (k, call) :: rest =>
    let (after, reply) := step perform readers k call
    let (final, replies) := run after rest
    (final, (k, reply) :: replies)

/-- Calls on one reader one after another. -/
def runAlone (c : σ) : List Call → σ × List Reply
  | [] => (c, [])
  | call :: rest =>
    let (c', reply) := perform c call
    let (final, replies) := runAlone c' rest
    (final, reply :: replies)

/-- The calls on the `k`-th reader. -/
def callsOn (k : Nat) (calls : List (Nat × Call)) : List Call :=
  calls.filterMap fun call => if call.1 = k then some call.2 else none

/-- The replies of the `k`-th reader. -/
def repliesOf (k : Nat) (replies : List (Nat × Option Reply)) : List Reply :=
  replies.filterMap fun reply => if reply.1 = k then reply.2 else none

variable {perform}

/-- What a call does to the readers that are there. -/
theorem getElem?_step {readers : List σ} {j k : Nat} (hj : j < readers.length) (call : Call) :
    (step perform readers k call).1[j]? = if k = j then some (perform readers[j] call).1 else readers[j]? := by
  have hclone : ∀ (after : List σ) (c : σ), after.length = readers.length →
      (if call = .clone then after ++ [c] else after)[j]? = after[j]? := by
    intro after c hlength
    split
    · exact List.getElem?_append_left (hlength ▸ hj)
    · rfl
  unfold step
  split
  · next hnone =>
    have hne : k ≠ j := fun heq => absurd (List.getElem?_eq_none_iff.1 hnone) (by omega)
    rw [if_neg hne]
  · next c hc =>
    dsimp only
    rw [hclone _ _ List.length_set, List.getElem?_set]
    split
    · next heq =>
      subst heq
      rw [List.getElem?_eq_getElem hj, Option.some.injEq] at hc
      rw [if_pos hj, hc]
    · rfl

/-- **Each reader is on its own.** It answers as if the calls on the others were not made. -/
theorem run_at {readers : List σ} {k : Nat} {c : σ} (hk : readers[k]? = some c) (calls : List (Nat × Call)) :
    (run perform readers calls).1[k]? = some (runAlone perform c (callsOn k calls)).1 ∧
      repliesOf k (run perform readers calls).2 = (runAlone perform c (callsOn k calls)).2 := by
  induction calls generalizing readers c with
  | nil => exact ⟨hk, rfl⟩
  | cons first calls ih =>
    obtain ⟨j, call⟩ := first
    obtain ⟨hlt, hget⟩ := List.getElem?_eq_some_iff.1 hk
    have hstep : (step perform readers j call).1[k]? = _ := getElem?_step hlt call
    by_cases hjk : j = k
    · subst hjk
      rw [if_pos rfl, hget] at hstep
      have hreply : (step perform readers j call).2 = some (perform c call).2 := by rw [step, hk]
      obtain ⟨hfinal, hreplies⟩ := ih hstep
      exact ⟨by simpa [run, runAlone, callsOn] using hfinal,
        by simpa [run, runAlone, callsOn, repliesOf, hreply] using hreplies⟩
    · rw [if_neg hjk, hk] at hstep
      obtain ⟨hfinal, hreplies⟩ := ih hstep
      exact ⟨by simpa [run, callsOn, hjk] using hfinal, by simpa [run, callsOn, repliesOf, hjk] using hreplies⟩

/-- A call takes a state as it takes the state that stands for it. -/
theorem step_map {perform' : τ → Call → τ × Reply} {f : σ → τ} {I : σ → Prop}
    (h : ∀ c call, I c → I (perform c call).1 ∧ perform' (f c) call = (f (perform c call).1, (perform c call).2))
    {readers : List σ} (hI : ∀ c ∈ readers, I c) (k : Nat) (call : Call) :
    (∀ c ∈ (step perform readers k call).1, I c) ∧
      step perform' (readers.map f) k call
        = ((step perform readers k call).1.map f, (step perform readers k call).2) := by
  unfold step
  rw [List.getElem?_map]
  cases hk : readers[k]? with
  | none => exact ⟨hI, rfl⟩
  | some c =>
    obtain ⟨hafter, hsame⟩ := h c call (hI c (List.mem_of_getElem? hk))
    have hset : ∀ c' ∈ readers.set k (perform c call).1, I c' := fun c' hc' =>
      (List.mem_or_eq_of_mem_set hc').elim (hI c') fun heq => heq ▸ hafter
    simp only [Option.map_some, hsame]
    split
    · refine ⟨fun c' hc' => ?_, by rw [List.map_append, List.map_set, List.map_singleton]⟩
      rcases List.mem_append.1 hc' with hc' | hc'
      · exact hset c' hc'
      · exact List.mem_singleton.1 hc' ▸ hafter
    · exact ⟨hset, by rw [List.map_set]⟩

/-- **One machine runs as another** when each call takes a state as it takes the state that stands for it. -/
theorem run_map {perform' : τ → Call → τ × Reply} {f : σ → τ} {I : σ → Prop}
    (h : ∀ c call, I c → I (perform c call).1 ∧ perform' (f c) call = (f (perform c call).1, (perform c call).2))
    {readers : List σ} (hI : ∀ c ∈ readers, I c) (calls : List (Nat × Call)) :
    (∀ c ∈ (run perform readers calls).1, I c) ∧
      run perform' (readers.map f) calls = ((run perform readers calls).1.map f, (run perform readers calls).2) := by
  induction calls generalizing readers with
  | nil => exact ⟨hI, rfl⟩
  | cons first calls ih =>
    obtain ⟨j, call⟩ := first
    obtain ⟨hstep, heq⟩ := step_map h hI j call
    obtain ⟨hrun, hsame⟩ := ih hstep
    refine ⟨hrun, ?_⟩
    simp only [run, heq, hsame]

end Machines

end Pool

/-! ## (5) Pieces of bytes in memory -/

/-- **No index goes wrong on the way.** On a machine whose indices reach the end of the bytes, a piece is copied without
a stop and is the one that is read. -/
theorem Medium.copyAt_eq {top : Nat} {d : ByteArray} (htop : d.size ≤ top) (offset : UInt64) (count : Nat) :
    copyAt top d offset count = .ok ((ofBytes d).fetch offset.toNat count) := by
  let start := min offset.toNat d.size
  let stop := start + min count (d.size - start)
  have hstart : min (if offset.toNat ≤ top then offset.toNat else top) d.size = start := by
    split <;> omega
  have hrest : start ≤ d.size := Nat.min_le_right _ _
  have hstop : stop ≤ d.size := by omega
  have hindex : stop ≤ top := Nat.le_trans hstop htop
  have hinside : min count (d.size - start) ≤ count ∧ start ≤ stop ∧ stop ≤ d.size := by omega
  have hcopy : copyAt top d offset count = .ok (d.extract start stop) := by
    simp only [copyAt, hstart, if_pos hrest, bind, Except.bind]
    rw [if_pos hindex]
    exact if_pos hinside
  rw [hcopy, fetch_ofBytes, Except.ok.injEq, ← Bytes.toList_inj, Bytes.toList_extract, Bytes.toList_extract,
    List.drop_take, List.drop_take]
  rcases Nat.le_total offset.toNat d.size with hinner | hpast
  · have hsame : start = offset.toNat := Nat.min_eq_left hinner
    rw [hsame, List.take_eq_take_iff, List.length_drop, Bytes.length_toList]
    omega
  · -- At or past the end both are empty.
    have hend : start = d.size := Nat.min_eq_right hpast
    have hnone : ∀ n, d.size ≤ n → d.toList.drop n = [] := fun n hn =>
      List.drop_eq_nil_of_le (Bytes.length_toList d ▸ hn)
    rw [hnone start (Nat.le_of_eq hend.symm), hnone offset.toNat hpast, List.take_nil, List.take_nil]

/-! ## (6) Positions -/

/-- **Cursors over bytes in memory are positions, each on its own.** However many new cursors are started with, and
whatever calls are made on them and on the clones made on the way, the replies are those of plain numbers that move as
they should: a seek sets a number exactly if it aims between zero and the greatest word, and else leaves it; a read
takes what stands from there on, at most as much as asked for, and moves on by its length. So no sum of words wraps.
From any moment on, what a cursor answers and where it ends depends on the calls on it alone. And each read is copied
without an index going wrong, on any machine whose indices reach the end of the bytes. -/
theorem Cursor.cursors_are_positions (d : ByteArray) (hd : d.size < 2 ^ 64) (n : Nat) (calls : List (Nat × Call)) :
    let final := Pool.run Cursor.perform (List.replicate n (Cursor.new (.ofBytes d))) calls
    let numbers := Pool.run (Position.perform d.toList) (List.replicate n 0) calls
    (final.2 = numbers.2 ∧ final.1.map position = numbers.1) ∧
    (∀ k c, final.1[k]? = some c → ∀ later,
      (Pool.run Cursor.perform final.1 later).1[k]?
          = some (Pool.runAlone Cursor.perform c (Pool.callsOn k later)).1 ∧
        Pool.repliesOf k (Pool.run Cursor.perform final.1 later).2
          = (Pool.runAlone Cursor.perform c (Pool.callsOn k later)).2) ∧
    ∀ top, d.size ≤ top → ∀ c ∈ final.1, ∀ count,
      Medium.copyAt top d c.place count = .ok (c.read count).1 := by
  intro final numbers
  have hstart : ∀ c ∈ List.replicate n (Cursor.new (.ofBytes d)), c.medium = .ofBytes d := fun c hc =>
    (List.mem_replicate.1 hc).2 ▸ rfl
  obtain ⟨hmedium, hrun⟩ := Pool.run_map (fun c call hc => perform_eq hd hc call) hstart calls
  rw [List.map_replicate] at hrun
  refine ⟨⟨congrArg Prod.snd hrun.symm, congrArg Prod.fst hrun.symm⟩, fun k c hk later => Pool.run_at hk later,
    fun top htop c hc count => ?_⟩
  rw [Medium.copyAt_eq htop, read, hmedium c hc]
  rfl

/-- Two cursors over six bytes, one cloned from the other, are moved past both ends and as far as words go. -/
theorem Cursor.cursors_are_positions_at_both_ends :
    let d : ByteArray := ⟨#[97, 98, 99, 100, 101, 102]⟩
    let calls : List (Nat × Call) := [(0, .seek (.offset 3)), (0, .clone), (1, .seek (.beyondEnd (-7))),
      (1, .seek (.onward (-3))), (0, .read 9), (1, .read 2), (0, .seek (.offset 18446744073709551615)), (0, .read 4),
      (0, .seek (.onward 1)), (0, .seek (.onward (-9223372036854775808))), (1, .position)]
    d.size < 2 ^ 64 ∧
    (Pool.run Cursor.perform [Cursor.new (.ofBytes d)] calls).2 = (Pool.run (Position.perform d.toList) [0] calls).2 ∧
    (Pool.run (Position.perform d.toList) [0] calls).2.map (·.2) = [some (.moved 3), some .cloned,
      some (.refused seekRefused), some (.moved 0), some (.piece [100, 101, 102]), some (.piece [97, 98]),
      some (.moved 18446744073709551615), some (.piece []), some (.refused seekRefused),
      some (.moved 9223372036854775807), some (.position 2)] := by
  intro d calls
  have hd : d.size < 2 ^ 64 := by decide
  exact ⟨hd, (Cursor.cursors_are_positions d hd 1 calls).1.1, by decide +kernel⟩

end LayeredBundles
