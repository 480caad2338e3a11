import LayeredBundles.Bytes.Word
import Mathlib.Algebra.Group.Nat.Defs
import Mathlib.Data.List.Basic

/-! # Pieces and numbers inside bytes

What stands where in bytes put together from others.

* **`Bytes.toList_eq`** — bytes as a list are the elements of their array;
* **`Bytes.slice?_append`** — more bytes at the end leave every piece;
* **`Bytes.slice?_mid`** — a piece put between two others stands behind the first;
* **`Bytes.littleOf_littleList`**, **`Bytes.bigOf_reverse`** — a number that fits its bytes is read back. -/

namespace LayeredBundles

namespace Bytes

variable {d e : ByteArray} {offset count : Nat}

/-! ## (1) Lists of bytes -/

/-- The loop behind `toList` puts the remaining bytes behind those it has collected. -/
theorem toList_loop (i : Nat) (r : List UInt8) :
    ByteArray.toList.loop d i r = r.reverse ++ d.data.toList.drop i := by
  fun_induction ByteArray.toList.loop d i r with
  | case1 i r h ih =>
    have hlt : i < d.data.toList.length := by
      rw [Array.length_toList]
      exact h
    have hget : d.get! i = d.data.toList[i] := by
      rw [Array.getElem_toList]
      exact getElem!_pos d.data i h
    rw [ih, List.reverse_cons, List.append_assoc, List.drop_eq_getElem_cons hlt, hget, List.singleton_append]
  | case2 i r h =>
    have hle : d.data.toList.length ≤ i := by
      rw [Array.length_toList]
      exact Nat.le_of_not_lt h
    rw [List.drop_eq_nil_of_le hle, List.append_nil]

/-- Bytes as a list are the elements of their array. -/
theorem toList_eq (d : ByteArray) : d.toList = d.data.toList := by
  rw [ByteArray.toList, toList_loop, List.reverse_nil, List.nil_append, List.drop_zero]

/-- Bytes made from a list are those of the list. -/
@[simp] theorem toList_ofList (bs : List UInt8) : (ofList bs).toList = bs := by rw [toList_eq, ofList]

/-- Bytes are made again from their list. -/
@[simp] theorem ofList_toList (d : ByteArray) : ofList d.toList = d := by
  rw [toList_eq, ofList, ByteArray.ext_iff]

/-- Bytes are equal if their lists are. -/
theorem toList_inj : d.toList = e.toList ↔ d = e := by
  rw [toList_eq, toList_eq, Array.toList_inj, ByteArray.ext_iff]

/-- Appending bytes appends their lists. -/
@[simp] theorem toList_append (d e : ByteArray) : (d ++ e).toList = d.toList ++ e.toList := by
  simp only [toList_eq, ByteArray.data_append, Array.toList_append]

/-- The list of some bytes is as long as they are many. -/
@[simp] theorem length_toList (d : ByteArray) : d.toList.length = d.size := by
  rw [toList_eq, Array.length_toList, ByteArray.size]

/-- There are as many bytes as the list is long. -/
@[simp] theorem size_ofList (bs : List UInt8) : (ofList bs).size = bs.length := by
  rw [← length_toList, toList_ofList]

/-- Appending lists appends the bytes made from them. -/
@[simp] theorem ofList_append (bs cs : List UInt8) : ofList bs ++ ofList cs = ofList (bs ++ cs) := by
  rw [← toList_inj, toList_append, toList_ofList, toList_ofList, toList_ofList]

/-- A part of some bytes is what is taken of their list up to its end, without what stands in front. -/
theorem toList_extract (d : ByteArray) (i j : Nat) : (d.extract i j).toList = (d.toList.take j).drop i := by
  rw [toList_eq, toList_eq, ByteArray.data_extract, Array.toList_extract, List.extract_eq_take_drop, List.drop_take]

/-- The same part of bytes made from a list. -/
theorem extract_ofList (bs : List UInt8) (i j : Nat) : (ofList bs).extract i j = ofList ((bs.take j).drop i) := by
  rw [← toList_inj, toList_extract, toList_ofList, toList_ofList]

/-- What is extracted up to the end is what is left of the list. -/
theorem toList_extract_size (d : ByteArray) (i : Nat) : (d.extract i d.size).toList = d.toList.drop i := by
  rw [toList_extract, ← length_toList d, List.take_length]

/-- A byte is read from the list, and is zero behind its end. -/
theorem byteAt_eq (d : ByteArray) (i : Nat) : byteAt d i = d.toList[i]?.getD 0 := by
  rw [byteAt, toList_eq, Array.getElem?_toList]
  split
  · next h =>
    rw [Array.getElem?_eq_getElem h, Option.getD_some]
    rfl
  · next h =>
    rw [Array.getElem?_eq_none (Nat.le_of_not_lt h), Option.getD_none]

/-! ## (2) Pieces -/

/-- A part that lies within the bytes is there. -/
theorem slice?_of_le (h : offset + count ≤ d.size) : slice? d offset count = some (d.extract offset (offset + count)) :=
  if_pos h

/-- A part that goes beyond their end is not. -/
theorem slice?_of_gt (h : d.size < offset + count) : slice? d offset count = none := if_neg (Nat.not_le.2 h)

/-- More bytes at the end leave a piece. -/
theorem slice?_append {s : ByteArray} (h : slice? d offset count = some s) (e : ByteArray) :
    slice? (d ++ e) offset count = some s := by
  by_cases hle : offset + count ≤ d.size
  · rw [slice?_of_le hle, Option.some.injEq] at h
    have hsize : (d ++ e).size = d.size + e.size := ByteArray.size_append
    have hnone : e.extract (offset - d.size) (offset + count - d.size) = ByteArray.empty := by
      rw [ByteArray.extract_eq_empty_iff]
      omega
    rw [slice?_of_le (by omega), ByteArray.extract_append, hnone, ByteArray.append_empty, h]
  · rw [slice?_of_gt (Nat.lt_of_not_le hle)] at h
    cases h

/-- A number that was read is read when more bytes follow, least byte first. -/
theorem little?_append {n : Nat} (h : little? d offset count = some n) (e : ByteArray) :
    little? (d ++ e) offset count = some n := by
  obtain ⟨s, hs, rfl⟩ := Option.map_eq_some_iff.1 h
  rw [little?, slice?_append hs e, Option.map_some]

/-- The same for numbers with the greatest byte first. -/
theorem big?_append {n : Nat} (h : big? d offset count = some n) (e : ByteArray) :
    big? (d ++ e) offset count = some n := by
  obtain ⟨s, hs, rfl⟩ := Option.map_eq_some_iff.1 h
  rw [big?, slice?_append hs e, Option.map_some]

/-- A byte stays when more follow. -/
theorem byteAt_append {i : Nat} (h : i < d.size) (e : ByteArray) : byteAt (d ++ e) i = byteAt d i := by
  have hsize : (d ++ e).size = d.size + e.size := ByteArray.size_append
  rw [byteAt, byteAt, dif_pos (by omega), dif_pos h, ByteArray.getElem_append_left]

/-- More bytes at the end leave what a piece inside is compared with. -/
theorem hasAt_append {piece : ByteArray} (h : offset + piece.size ≤ d.size) (e : ByteArray) :
    hasAt (d ++ e) offset piece = hasAt d offset piece := by
  rw [hasAt, hasAt, slice?_append (slice?_of_le h), slice?_of_le h]

/-- A piece put between two others stands behind the first. -/
theorem slice?_mid (a b c : ByteArray) : slice? (a ++ b ++ c) a.size b.size = some b := by
  refine slice?_append ?_ c
  rw [slice?_of_le (Nat.le_of_eq ByteArray.size_append.symm), ByteArray.extract_append_eq_right rfl rfl]

/-! ## (3) Numbers -/

/-- A number is written in as many bytes as asked for. -/
theorem length_littleList (width n : Nat) : (littleList width n).length = width := by
  induction width generalizing n with
  | zero => rfl
  | succ width ih => rw [littleList, List.length_cons, ih]

/-- The bytes of a number are those of its list. -/
@[simp] theorem toList_ofLittle (width n : Nat) : (ofLittle width n).toList = littleList width n :=
  toList_ofList (littleList width n)

/-- There are as many of them as asked for. -/
@[simp] theorem size_ofLittle (width n : Nat) : (ofLittle width n).size = width := by
  rw [← length_toList, toList_ofLittle, length_littleList]

/-- The lowest bytes of a number hold its remainder. -/
theorem littleOf_littleList (width n : Nat) : littleOf (littleList width n) = n % 256 ^ width := by
  induction width generalizing n with
  | zero => rw [littleList, littleOf, Nat.pow_zero, Nat.mod_one]
  | succ width ih =>
    rw [littleList, littleOf, ih, UInt8.toNat_ofNat', show 2 ^ 8 = 256 by decide, ← Nat.mod_mul, Nat.pow_succ,
      Nat.mul_comm]

/-- A number that fits is read back. -/
theorem littleOf_littleList_of_lt {width n : Nat} (h : n < 256 ^ width) : littleOf (littleList width n) = n := by
  rw [littleOf_littleList, Nat.mod_eq_of_lt h]

/-- The number of some bytes is bounded by their count. -/
theorem littleOf_lt (bs : List UInt8) : littleOf bs < 256 ^ bs.length := by
  induction bs with
  | nil => exact Nat.one_pos
  | cons b bs ih =>
    have hb := b.toNat_lt
    rw [littleOf, List.length_cons, Nat.pow_succ]
    omega

/-- Most significant first is least significant first, backwards. -/
theorem bigOf_reverse (bs : List UInt8) : bigOf bs.reverse = littleOf bs := by
  rw [bigOf, List.foldl_reverse]
  induction bs with
  | nil => rfl
  | cons b bs ih => rw [List.foldr_cons, ih, littleOf, Nat.add_comm]

/-- A part has the size that was asked for. -/
theorem length_of_slice? {d s : ByteArray} {offset count : Nat} (h : slice? d offset count = some s) :
    s.size = count := by
  unfold slice? at h
  split at h
  · next hle =>
    cases h
    rw [ByteArray.size_extract]
    omega
  · cases h

/-- A number that was read fits its width. -/
theorem little?_lt {d : ByteArray} {offset width n : Nat} (h : little? d offset width = some n) : n < 256 ^ width := by
  obtain ⟨s, hs, rfl⟩ := Option.map_eq_some_iff.1 h
  have hlt := littleOf_lt s.toList
  rwa [length_toList, length_of_slice? hs] at hlt

end Bytes

end LayeredBundles
