import LayeredBundles.Native.Image
import LayeredBundles.Proofs.Cuts
import LayeredBundles.Proofs.Utf8
import Mathlib.Data.List.Induction

/-! # What is written into a binary is read from it

The least binary that needs some libraries is zeros with pieces written over them, in ascending order. So every piece
still stands in the end, and each function of the reader finds the fields it looks for.

* **`Elf.Stands`** — a piece stands at its offset;
* **`Elf.Ascending`** — pieces one behind the other, between two offsets;
* **`Elf.stands_foldl`** — ascending pieces stand when all of them are written, by induction on the pieces;
* **`Elf.Plan.Fits`** — every number of the binary fits its field;
* **`Elf.Plan.rowsFrom_eq`** — the rows of the dynamic table, by induction on the rows;
* **`Elf.Plan.needed_image`** — the names are read back. -/

namespace LayeredBundles

namespace Elf

variable {d : ByteArray} {q : Piece} {ps qs : List Piece} {lo mid hi : Nat}

/-! ## (1) Pieces that stand -/

/-- The piece stands at its offset. -/
def Stands (d : ByteArray) (q : Piece) : Prop := Bytes.slice? d q.offset q.bytes.size = some q.bytes

/-- The offset behind the piece. -/
def Piece.finish (q : Piece) : Nat := q.offset + q.bytes.size

/-- A piece that stands in a file ends within it. -/
theorem Stands.finish_le (h : Stands d q) : q.finish ≤ d.size := by
  by_contra hgt
  rw [Stands, Bytes.slice?_of_gt (Nat.lt_of_not_le hgt)] at h
  cases h

/-- Writing a piece within a file does not change its size. -/
theorem size_overwrite (h : q.finish ≤ d.size) : (overwrite d q).size = d.size := by
  rw [Piece.finish] at h
  rw [overwrite, ByteArray.size_append, ByteArray.size_append, ByteArray.size_extract, ByteArray.size_extract]
  omega

/-- What is written stands. -/
theorem stands_overwrite (h : q.finish ≤ d.size) : Stands (overwrite d q) q := by
  have hsize : (d.extract 0 q.offset).size = q.offset := by
    rw [Piece.finish] at h
    rw [ByteArray.size_extract]
    omega
  have := Bytes.slice?_mid (d.extract 0 q.offset) q.bytes (d.extract q.finish d.size)
  rwa [hsize] at this

/-- What stands before it still stands. -/
theorem Stands.overwrite {q' : Piece} (h : Stands d q') (hbefore : q'.finish ≤ q.offset) :
    Stands (overwrite d q) q' := by
  have hle := h.finish_le
  rw [Piece.finish] at hbefore hle
  have hbelow : Bytes.slice? (d.extract 0 q.offset) q'.offset q'.bytes.size = some q'.bytes := by
    rw [Stands, Bytes.slice?_of_le hle] at h
    have hsize : q'.offset + q'.bytes.size ≤ (d.extract 0 q.offset).size := by
      rw [ByteArray.size_extract]
      omega
    rw [Bytes.slice?_of_le hsize, ByteArray.extract_extract, Nat.zero_add, Nat.zero_add, Nat.min_eq_left (by omega), h]
  exact Bytes.slice?_append (Bytes.slice?_append hbelow _) _

/-- `Ascending lo hi ps`: the pieces stand one behind the other, from `lo` on and up to `hi`. -/
def Ascending : Nat → Nat → List Piece → Prop
  | lo, hi, [] => lo ≤ hi
  | lo, hi, q :: ps => lo ≤ q.offset ∧ Ascending q.finish hi ps

/-- Ascending pieces that begin where others end ascend together. -/
theorem Ascending.append (h : Ascending lo mid ps) (h' : Ascending mid hi qs) : Ascending lo hi (ps ++ qs) := by
  induction ps generalizing lo with
  | nil =>
    cases qs with
    | nil => exact Nat.le_trans h h'
    | cons q qs => exact ⟨Nat.le_trans h h'.1, h'.2⟩
  | cons q ps ih => exact ⟨h.1, ih h.2⟩

/-- Ascending pieces end behind their beginning. -/
theorem Ascending.le (h : Ascending lo hi ps) : lo ≤ hi := by
  induction ps generalizing lo with
  | nil => exact h
  | cons q ps ih => exact Nat.le_trans (Nat.le_trans h.1 (Nat.le_add_right _ _)) (ih h.2)

/-- Ascending pieces stand when all of them are written, and so does what stood before them. -/
theorem stands_foldl (h : Ascending lo hi ps) (hhi : hi ≤ d.size) :
    (ps.foldl overwrite d).size = d.size ∧ (∀ q ∈ ps, Stands (ps.foldl overwrite d) q) ∧
      ∀ q, Stands d q → q.finish ≤ lo → Stands (ps.foldl overwrite d) q := by
  induction ps generalizing d lo with
  | nil => exact ⟨rfl, fun q hq => absurd hq List.not_mem_nil, fun q hq _ => hq⟩
  | cons p ps ih =>
    have hfinish : p.finish ≤ d.size := Nat.le_trans h.2.le hhi
    have hsize := size_overwrite hfinish
    obtain ⟨hsame, hstands, hbefore⟩ := ih h.2 (d := overwrite d p) (by rwa [hsize])
    refine ⟨hsame.trans hsize, ?_, ?_⟩
    · intro q hq
      obtain rfl | hq := List.mem_cons.1 hq
      · exact hbefore q (stands_overwrite hfinish) (Nat.le_refl _)
      · exact hstands q hq
    · intro q hq hlo
      have hoffset : q.finish ≤ p.offset := Nat.le_trans hlo h.1
      exact hbefore q (hq.overwrite hoffset) (Nat.le_trans hoffset (Nat.le_add_right _ _))

/-- What a file holds from a piece on. -/
theorem Stands.drop (h : Stands d q) : d.toList.drop q.offset = q.bytes.toList ++ d.toList.drop q.finish := by
  have hle := h.finish_le
  rw [Stands, Bytes.slice?_of_le hle, Option.some.injEq] at h
  rw [← h, Bytes.toList_extract]
  have hlength : q.offset ≤ (d.toList.take q.finish).length := by
    rw [List.length_take, Bytes.length_toList, Piece.finish] at *
    omega
  calc d.toList.drop q.offset = (d.toList.take q.finish ++ d.toList.drop q.finish).drop q.offset := by
        rw [List.take_append_drop]
    _ = (d.toList.take q.finish).drop q.offset ++ d.toList.drop q.finish :=
        List.drop_append_of_le_length hlength

/-- A piece of one byte is read back as that byte. -/
theorem Stands.byteAt {o : Nat} {b : UInt8} (h : Stands d ⟨o, Bytes.ofList [b]⟩) : Bytes.byteAt d o = b := by
  have hdrop := congrArg (fun bs => bs[0]?) h.drop
  dsimp only at hdrop
  rw [List.getElem?_drop, Nat.add_zero, Bytes.toList_ofList] at hdrop
  rw [Bytes.byteAt_eq, hdrop]
  rfl

namespace Plan

variable {p : Plan} {v : View}

/-- Every number of the binary fits a word, and no name has the character that ends it. -/
structure Fits (p : Plan) : Prop where
  /-- Every offset of the file is a word. -/
  size : p.size < 2 ^ (8 * p.wordSize)
  /-- The addresses of the segments and of the strings are words. -/
  address : p.base + p.tableAt < 2 ^ (8 * p.wordSize)
  /-- Names are texts without the character of code zero. -/
  names : ∀ n ∈ p.names, '\x00' ∉ n.toList

/-- The file as its reader views it. -/
def view (p : Plan) : View := ⟨p.image, p.bigEndian, p.wide⟩

/-- The reader views the bytes of the image. -/
theorem data_view (p : Plan) : p.view.data = p.image := by rw [view]

/-! ## (2) The pieces of a plan -/

/-- A field has the width it was made for, in both byte orders. -/
@[simp] theorem size_field (p : Plan) (o width n : Nat) : (p.field o width n).bytes.size = width := by
  rw [field, Bytes.size_ofList]
  split
  · rw [List.length_reverse, Bytes.length_littleList]
  · rw [Bytes.length_littleList]

/-- A field stands where it was put. -/
@[simp] theorem offset_field (p : Plan) (o width n : Nat) : (p.field o width n).offset = o := rfl

/-- The magic number, the class and the byte order stand in the first seven bytes. -/
theorem ascending_identity (p : Plan) : Ascending 0 7 p.identity := by
  simp [identity, Ascending, Piece.finish, magic]

/-- The fields of the header follow, one behind the other. -/
theorem ascending_headerFields (p : Plan) : Ascending 7 p.headerSize p.headerFields := by
  unfold headerFields headerSize
  split <;> simp [Ascending, Piece.finish]

/-- The fields of a segment ascend in both classes, though their order differs. -/
theorem ascending_segmentFields (p : Plan) (base : Nat) (s : Segment) :
    Ascending base (base + p.segmentSize) (p.segmentFields base s) := by
  unfold segmentFields segmentSize
  split <;> simp [Ascending, Piece.finish]

/-- The rows of the table stand one behind the other, two words each. -/
theorem ascending_rowFields (p : Plan) (o : Nat) (rs : List (Nat × Nat)) :
    Ascending o (o + rs.length * (2 * p.wordSize)) (p.rowFields o rs) := by
  induction rs generalizing o with
  | nil => exact Nat.le_add_right _ _
  | cons r rs ih =>
    obtain ⟨tag, value⟩ := r
    refine ⟨Nat.le_refl o, ?_, ?_⟩
    · rw [Piece.finish, size_field]
      exact Nat.le_refl _
    · have hfinish : (p.field (o + p.wordSize) p.wordSize value).finish = o + 2 * p.wordSize := by
        rw [Piece.finish, size_field, offset_field]
        omega
      have hend : o + ((tag, value) :: rs).length * (2 * p.wordSize) =
          o + 2 * p.wordSize + rs.length * (2 * p.wordSize) := by
        rw [List.length_cons, Nat.succ_mul]
        omega
      rw [hfinish, hend]
      exact ih _

/-- The strings end before the dynamic table. -/
theorem strings_le_tableAt (p : Plan) : p.stringsAt + p.stringTable.size ≤ p.tableAt := by
  unfold tableAt
  omega

/-- **All pieces of a plan ascend**, from the first byte of the file to its last. -/
theorem ascending_pieces (p : Plan) : Ascending 0 p.size p.pieces := by
  refine p.ascending_identity.append (p.ascending_headerFields.append ?_)
  refine (p.ascending_segmentFields _ _).append ((p.ascending_segmentFields _ _).append ⟨?_, ?_⟩)
  · change p.headerSize + 2 * p.segmentSize ≥ _
    omega
  · have hgap : Ascending (p.stringsAt + p.stringTable.size) p.tableAt [] := p.strings_le_tableAt
    exact hgap.append (p.ascending_rowFields p.tableAt p.rows)

/-- The file begins as that many zero bytes. -/
theorem size_zeros (p : Plan) : (Bytes.zeros p.size).size = p.size := Array.size_replicate

/-- The image has the size that the plan gives it. -/
theorem size_image (p : Plan) : p.image.size = p.size := by
  have h := stands_foldl p.ascending_pieces (d := Bytes.zeros p.size) (Nat.le_of_eq p.size_zeros.symm)
  exact h.1.trans p.size_zeros

/-- Every piece stands in the file. -/
theorem stands_of_mem (h : q ∈ p.pieces) : Stands p.image q :=
  (stands_foldl p.ascending_pieces (Nat.le_of_eq p.size_zeros.symm)).2.1 q h

/-- The first bytes stand in the image. -/
theorem stands_identity : ∀ q ∈ p.identity, Stands p.image q := by
  intro q hq
  exact stands_of_mem (List.mem_append_left _ hq)

/-- The fields of the header stand in the image. -/
theorem stands_headerFields : ∀ q ∈ p.headerFields, Stands p.image q := by
  intro q hq
  exact stands_of_mem (by simp [pieces, hq])

/-- The segment that is loaded stands behind the header. -/
theorem stands_loadedSegment : ∀ q ∈ p.segmentFields p.headerSize p.loadedSegment, Stands p.image q := by
  intro q hq
  exact stands_of_mem (by simp [pieces, hq])

/-- The dynamic segment stands behind that. -/
theorem stands_dynamicSegment :
    ∀ q ∈ p.segmentFields (p.headerSize + p.segmentSize) p.dynamicSegment, Stands p.image q := by
  intro q hq
  exact stands_of_mem (by simp [pieces, hq])

/-- The strings stand where the plan puts them. -/
theorem stands_strings : Stands p.image ⟨p.stringsAt, p.stringTable⟩ := stands_of_mem (by simp [pieces])

/-- So do the rows of the dynamic table. -/
theorem stands_rows : ∀ q ∈ p.rowFields p.tableAt p.rows, Stands p.image q := by
  intro q hq
  exact stands_of_mem (by simp [pieces, hq])

/-! ## (3) Fields -/

/-- A number that fits its field is read back. -/
theorem number_field {o width n : Nat} (h : Stands p.image (p.field o width n)) (hn : n < 256 ^ width) :
    p.view.number width o = .ok n := by
  rw [Stands, size_field, offset_field] at h
  have hlittle := Bytes.littleOf_littleList_of_lt hn
  cases hbig : p.bigEndian with
  | true =>
    have hread : Bytes.big? p.image o width = some n := by
      rw [Bytes.big?, h, Option.map_some, field, hbig, if_pos rfl, Bytes.toList_ofList, Bytes.bigOf_reverse, hlittle]
    simp [View.number, view, hbig, hread]
  | false =>
    have hread : Bytes.little? p.image o width = some n := by
      rw [Bytes.little?, h, Option.map_some, field, hbig, if_neg Bool.false_ne_true, Bytes.toList_ofList, hlittle]
    simp [View.number, view, hbig, hread]

/-- Some number stands wherever the file is long enough. -/
theorem exists_number (p : Plan) (o width : Nat) (h : o + width ≤ p.size) : ∃ n, p.view.number width o = .ok n := by
  rw [← size_image] at h
  cases hbig : p.bigEndian <;> simp [View.number, view, hbig, Bytes.big?, Bytes.little?, Bytes.slice?_of_le h]

/-! ## (4) Headers -/

/-- A reading that went well is followed by the next one. -/
theorem ok_bind {α β : Type} (a : α) (k : α → Read β) : (Except.ok a >>= k) = k a := rfl

/-- A number that is no larger than the file fits a word. -/
theorem lt_of_fits (hfits : p.Fits) {n : Nat} (h : n ≤ p.size) : n < 256 ^ p.wordSize := by
  have hsize := hfits.size
  rw [Nat.pow_mul, show 2 ^ 8 = 256 by decide] at hsize
  exact Nat.lt_of_le_of_lt h hsize

/-- An address up to that of the table fits a word. -/
theorem address_lt (hfits : p.Fits) {n : Nat} (h : n ≤ p.base + p.tableAt) : n < 256 ^ p.wordSize := by
  have haddress := hfits.address
  rw [Nat.pow_mul, show 2 ^ 8 = 256 by decide] at haddress
  exact Nat.lt_of_le_of_lt h haddress

/-- Words of either class fit eight bytes. -/
theorem word_le (p : Plan) : 256 ^ p.wordSize ≤ UInt64.size := by
  unfold wordSize
  split <;> decide

/-- The header and the two segments lie within the file. -/
theorem headerSize_le_size (p : Plan) : p.headerSize + 2 * p.segmentSize ≤ p.size := by
  have h := p.strings_le_tableAt
  rw [stringsAt] at h
  rw [size]
  omega

/-- The reader finds the class and the byte order of the plan. -/
theorem viewOf_image (p : Plan) : viewOf p.image = .ok p.view := by
  have hsize : ¬ p.image.size < 16 := by
    have h := p.headerSize_le_size
    rw [size_image]
    unfold headerSize at h
    split at h <;> omega
  have hmagic : Bytes.hasAt p.image 0 magic = true := by
    have h : Stands p.image ⟨0, magic⟩ := stands_identity _ (by simp [identity])
    rw [Stands] at h
    rw [Bytes.hasAt, h, Option.any_some, Bytes.same_iff]
  have hclass : Bytes.byteAt p.image 4 = if p.wide then 2 else 1 := (stands_identity _ (by simp [identity])).byteAt
  have horder : Bytes.byteAt p.image 5 = if p.bigEndian then 2 else 1 :=
    (stands_identity _ (by simp [identity])).byteAt
  unfold viewOf
  rw [decide_eq_false hsize, hmagic, hclass, horder, view]
  cases p.wide <;> cases p.bigEndian <;> rfl

/-- **The header of an image** is read, and tells of two segments behind it. -/
theorem header_image (hfits : p.Fits) : ∃ h, header p.view = .ok h ∧ h.segmentsAt = p.headerSize ∧
    h.segmentSize = p.segmentSize ∧ h.segmentCount = 2 := by
  have hle := p.headerSize_le_size
  have hstands := p.stands_headerFields
  have hsegments := lt_of_fits hfits (Nat.le_trans (Nat.le_add_right _ _) hle)
  unfold headerFields at hstands
  unfold header
  cases hwide : p.wide with
  | true =>
    have hview : p.view.wide = true := hwide
    have hhead : p.headerSize = 64 := by rw [headerSize, hwide, if_pos rfl]
    have hsize : p.segmentSize = 56 := by rw [segmentSize, hwide, if_pos rfl]
    rw [wordSize, hwide, if_pos rfl] at hsegments
    rw [if_pos hwide] at hstands
    have hat := number_field (hstands _ List.mem_cons_self) hsegments
    have hone := number_field (hstands _ (List.mem_cons_of_mem _ List.mem_cons_self)) (hsize ▸ by decide)
    have hcount : p.view.number 2 56 = .ok 2 := number_field (hstands _ (by simp)) (by decide)
    -- The three fields that the plan leaves zero are read too, and not looked at.
    obtain ⟨a, ha⟩ := p.exists_number 40 8 (by omega)
    obtain ⟨b, hb⟩ := p.exists_number 58 2 (by omega)
    obtain ⟨c, hc⟩ := p.exists_number 60 2 (by omega)
    rw [if_pos hview, hat, ha, hone, hcount, hb, hc]
    exact ⟨_, rfl, rfl, rfl, rfl⟩
  | false =>
    have hview : ¬ p.view.wide = true := by
      rw [view, hwide]
      exact Bool.false_ne_true
    have hhead : p.headerSize = 52 := by rw [headerSize, hwide, if_neg Bool.false_ne_true]
    have hsize : p.segmentSize = 32 := by rw [segmentSize, hwide, if_neg Bool.false_ne_true]
    rw [wordSize, hwide, if_neg Bool.false_ne_true] at hsegments
    rw [hwide, if_neg Bool.false_ne_true] at hstands
    have hat := number_field (hstands _ List.mem_cons_self) hsegments
    have hone := number_field (hstands _ (List.mem_cons_of_mem _ List.mem_cons_self)) (hsize ▸ by decide)
    have hcount : p.view.number 2 44 = .ok 2 := number_field (hstands _ (by simp)) (by decide)
    obtain ⟨a, ha⟩ := p.exists_number 32 4 (by omega)
    obtain ⟨b, hb⟩ := p.exists_number 46 2 (by omega)
    obtain ⟨c, hc⟩ := p.exists_number 48 2 (by omega)
    rw [if_neg hview, hat, ha, hone, hcount, hb, hc]
    exact ⟨_, rfl, rfl, rfl, rfl⟩

/-- A segment is read as it was planned if its fields stand and its numbers fit. -/
theorem segmentAt_image {base : Nat} {s : Segment} (hstands : ∀ q ∈ p.segmentFields base s, Stands p.image q)
    (hbase : base + p.segmentSize ≤ p.size) (hfits : p.Fits) (hkind : s.kind < 256 ^ 4)
    (hoffset : s.offset < 256 ^ p.wordSize) (haddress : s.address < 256 ^ p.wordSize)
    (hsize : s.size < 256 ^ p.wordSize) : segmentAt p.view base = .ok s := by
  have hfile : base + p.segmentSize < UInt64.size :=
    Nat.lt_of_lt_of_le (lt_of_fits hfits hbase) p.word_le
  -- No place within the segment overflows.
  have hadd : ∀ n, n ≤ p.segmentSize → add base n = .ok (base + n) := fun n hn => if_pos (by omega)
  unfold segmentFields at hstands
  unfold segmentAt
  unfold wordSize at hoffset haddress hsize
  unfold segmentSize at hadd
  cases hwide : p.wide with
  | true =>
    simp only [hwide, if_true] at hstands hadd hoffset haddress hsize
    have h₁ := number_field (hstands (p.field (base + 8) 8 s.offset) (by simp)) hoffset
    have h₂ := number_field (hstands (p.field (base + 16) 8 s.address) (by simp)) haddress
    have h₃ := number_field (hstands (p.field (base + 32) 8 s.size) (by simp)) hsize
    rw [number_field (hstands _ List.mem_cons_self) hkind, ok_bind, if_pos (show p.view.wide = true from hwide),
      hadd 8 (by decide), ok_bind, h₁, hadd 16 (by decide), ok_bind, ok_bind, h₂, hadd 32 (by decide), ok_bind, ok_bind,
      h₃, ok_bind]
    rfl
  | false =>
    simp only [hwide, if_false, Bool.false_eq_true] at hstands hadd hoffset haddress hsize
    have hview : ¬ p.view.wide = true := by
      rw [view, hwide]
      exact Bool.false_ne_true
    have h₁ := number_field (hstands (p.field (base + 4) 4 s.offset) (by simp)) hoffset
    have h₂ := number_field (hstands (p.field (base + 8) 4 s.address) (by simp)) haddress
    have h₃ := number_field (hstands (p.field (base + 16) 4 s.size) (by simp)) hsize
    rw [number_field (hstands _ List.mem_cons_self) hkind, ok_bind, if_neg hview, hadd 4 (by decide), ok_bind, h₁,
      hadd 8 (by decide), ok_bind, ok_bind, h₂, hadd 16 (by decide), ok_bind, ok_bind, h₃, ok_bind]
    rfl

/-- The first segment that is read is the one that is loaded. -/
theorem loadedSegment_image (hfits : p.Fits) : segmentAt p.view p.headerSize = .ok p.loadedSegment := by
  have hle := p.headerSize_le_size
  have hbase : p.base < 256 ^ p.wordSize := address_lt hfits (Nat.le_add_right _ _)
  have hsize : p.size < 256 ^ p.wordSize := lt_of_fits hfits (Nat.le_refl _)
  exact segmentAt_image p.stands_loadedSegment (by omega) hfits (show loaded < 256 ^ 4 by decide)
    (Nat.pow_pos (by decide)) hbase hsize

/-- The second one is the dynamic segment. -/
theorem dynamicSegment_image (hfits : p.Fits) :
    segmentAt p.view (p.headerSize + p.segmentSize) = .ok p.dynamicSegment := by
  have hle := p.headerSize_le_size
  have hat : p.tableAt < 256 ^ p.wordSize := lt_of_fits hfits (Nat.le_add_right _ _)
  have haddress : p.base + p.tableAt < 256 ^ p.wordSize := address_lt hfits (Nat.le_refl _)
  have hsize : p.tableSize < 256 ^ p.wordSize := lt_of_fits hfits (Nat.le_add_left _ _)
  exact segmentAt_image p.stands_dynamicSegment (by omega) hfits (show dynamic < 256 ^ 4 by decide) hat
    haddress hsize

/-- The two program headers are read back. -/
theorem segments_image (hfits : p.Fits) {h : Header} (hat : h.segmentsAt = p.headerSize)
    (hsize : h.segmentSize = p.segmentSize) (hcount : h.segmentCount = 2) :
    segments p.view h = .ok [p.loadedSegment, p.dynamicSegment] := by
  have hle := p.headerSize_le_size
  have hfile : p.headerSize + 2 * p.segmentSize < UInt64.size :=
    Nat.lt_of_lt_of_le (lt_of_fits hfits hle) p.word_le
  have hrow : ∀ i, i < 2 → elementAt p.headerSize i p.segmentSize = .ok (p.headerSize + i * p.segmentSize) := by
    intro i hi
    have hmul : i * p.segmentSize ≤ 1 * p.segmentSize := Nat.mul_le_mul_right _ (by omega)
    rw [elementAt, if_pos (by omega), add, if_pos (by omega)]
  have hfirst := hrow 0 (by decide)
  have hsecond := hrow 1 (by decide)
  rw [Nat.zero_mul, Nat.add_zero] at hfirst
  rw [Nat.one_mul] at hsecond
  rw [segments, hcount, hat, hsize, show List.range 2 = [0, 1] by decide, List.mapM_cons, hfirst, ok_bind,
    loadedSegment_image hfits, ok_bind, List.mapM_cons, hsecond, ok_bind, dynamicSegment_image hfits]
  rfl

/-! ## (5) The dynamic table -/

/-- Rows are read back up to the one with tag zero. -/
theorem rowsFrom_image (hfits : p.Fits) {rs : List (Nat × Nat)} {o count : Nat}
    (hstands : ∀ q ∈ p.rowFields o (rs ++ [(0, 0)]), Stands p.image q)
    (hrows : ∀ r ∈ rs, r.1 ≠ 0 ∧ r.1 < 256 ^ p.wordSize ∧ r.2 < 256 ^ p.wordSize) (hcount : rs.length < count) :
    rowsFrom p.view count o = .ok rs := by
  induction rs generalizing o count with
  | nil =>
    obtain ⟨count, rfl⟩ := Nat.exists_eq_add_of_lt hcount
    have htag : p.view.word o = .ok 0 := number_field (hstands _ List.mem_cons_self) (Nat.pow_pos (by decide))
    rw [rowsFrom, htag, ok_bind, if_pos rfl]
    rfl
  | cons r rs ih =>
    obtain ⟨tag, value⟩ := r
    obtain ⟨count, rfl⟩ : ∃ k, count = k + 1 := ⟨count - 1, by omega⟩
    obtain ⟨hne, htag, hvalue⟩ := hrows (tag, value) List.mem_cons_self
    have hmem : p.field (o + p.wordSize) p.wordSize value ∈ p.rowFields o ((tag, value) :: rs ++ [(0, 0)]) :=
      List.mem_cons_of_mem _ List.mem_cons_self
    -- The place of the next row does not overflow, since this one ends within the file.
    have hfile : o + 2 * p.wordSize < UInt64.size := by
      have hend := (hstands _ hmem).finish_le
      rw [Piece.finish, size_field, offset_field, size_image] at hend
      have hword := Nat.lt_of_lt_of_le (lt_of_fits hfits (Nat.le_refl p.size)) p.word_le
      omega
    have hsize : p.view.wordSize = p.wordSize := rfl
    have hread : p.view.word o = .ok tag := number_field (hstands _ List.mem_cons_self) htag
    have hread' : p.view.word (o + p.wordSize) = .ok value := number_field (hstands _ hmem) hvalue
    have hlength : rs.length < count := by
      rw [List.length_cons] at hcount
      omega
    have hrest : rowsFrom p.view count (o + 2 * p.wordSize) = .ok rs :=
      ih (fun q hq => hstands q (List.mem_cons_of_mem _ (List.mem_cons_of_mem _ hq)))
        (fun r hr => hrows r (List.mem_cons_of_mem _ hr)) hlength
    rw [rowsFrom, hread, ok_bind, if_neg hne, hsize, add, if_pos (by omega), ok_bind, hread', ok_bind, add,
      if_pos hfile, ok_bind, hrest, ok_bind]
    rfl

/-- Every name begins within the strings. -/
theorem mem_nameOffsets {k o : Nat} {ns : List String} (h : k ∈ nameOffsets o ns) :
    k < o + (strings ns).length := by
  induction ns generalizing o with
  | nil => exact absurd h List.not_mem_nil
  | cons n ns ih =>
    rw [strings, List.flatMap_cons, List.length_append, List.length_append, List.length_singleton, Bytes.length_toList]
    obtain rfl | h := List.mem_cons.1 h
    · omega
    · have := ih h
      rw [strings] at this
      omega

/-- The rows that are read: all but the end. -/
def readRows (p : Plan) : List (Nat × Nat) :=
  (nameOffsets 1 p.names).map (neededTag, ·) ++ [(stringTableTag, p.base + p.stringsAt)]

/-- The rows of a plan are those that are read, and the one that ends them. -/
theorem rows_eq (p : Plan) : p.rows = p.readRows ++ [(0, 0)] := by
  rw [rows, readRows, List.append_assoc]
  rfl

/-- The rows that are read have a tag other than zero and numbers that fit. -/
theorem readRows_fit (hfits : p.Fits) :
    ∀ r ∈ p.readRows, r.1 ≠ 0 ∧ r.1 < 256 ^ p.wordSize ∧ r.2 < 256 ^ p.wordSize := by
  have hword : 256 ≤ 256 ^ p.wordSize := by
    unfold wordSize
    split <;> decide
  have hstrings := p.strings_le_tableAt
  intro r hr
  obtain hr | hr := List.mem_append.1 hr
  · obtain ⟨k, hk, rfl⟩ := List.mem_map.1 hr
    have hlt := mem_nameOffsets hk
    have hsize : p.stringTable.size = 1 + (strings p.names).length := by
      rw [stringTable, Bytes.size_ofList, List.length_cons, Nat.add_comm]
    refine ⟨show neededTag ≠ 0 by decide, Nat.lt_of_lt_of_le (show neededTag < 256 by decide) hword,
      lt_of_fits hfits ?_⟩
    rw [size]
    omega
  · obtain rfl := List.mem_singleton.1 hr
    refine ⟨show stringTableTag ≠ 0 by decide, Nat.lt_of_lt_of_le (show stringTableTag < 256 by decide) hword,
      address_lt hfits ?_⟩
    exact Nat.add_le_add_left (Nat.le_trans (Nat.le_add_right _ _) hstrings) _

/-- **The rows of the table** are read up to the one that ends them. -/
theorem tableRows_image (hfits : p.Fits) : tableRows p.view p.tableAt p.tableSize = .ok p.readRows := by
  have hfile : p.tableAt + p.tableSize < UInt64.size :=
    Nat.lt_of_lt_of_le (lt_of_fits hfits (Nat.le_refl p.size)) p.word_le
  have hpos : 0 < 2 * p.view.wordSize := by
    unfold View.wordSize
    split <;> decide
  have hcount : p.tableSize / (2 * p.view.wordSize) = p.rows.length := Nat.mul_div_cancel _ hpos
  rw [tableRows, add, if_pos hfile, ok_bind, hcount]
  refine rowsFrom_image hfits ?_ (readRows_fit hfits) ?_
  · rw [← rows_eq]
    exact p.stands_rows
  · rw [rows_eq, List.length_append]
    exact Nat.lt_succ_self _

/-- The dynamic segment leads to the rows and to the address of the strings. -/
theorem segmentTable_image (hfits : p.Fits) :
    segmentTable p.view p.dynamicSegment = .ok (p.readRows, p.base + p.stringsAt) := by
  have hfind : p.readRows.find? (·.1 = stringTableTag) = some (stringTableTag, p.base + p.stringsAt) := by
    rw [readRows, List.find?_append, List.find?_eq_none.2, Option.none_or]
    · rfl
    · intro r hr
      obtain ⟨k, hk, rfl⟩ := List.mem_map.1 hr
      change ¬ decide (neededTag = stringTableTag) = true
      decide
  rw [segmentTable, dynamicSegment, tableRows_image hfits, ok_bind, hfind]
  rfl

/-- The address of the strings leads to their offset. -/
theorem offsetOf?_image (hfits : p.Fits) :
    offsetOf? [p.loadedSegment, p.dynamicSegment] (p.base + p.stringsAt) = some p.stringsAt := by
  have hstrings := p.strings_le_tableAt
  have hpos : 0 < p.stringTable.size := by
    rw [stringTable, Bytes.size_ofList]
    exact Nat.succ_pos _
  have hsize : p.stringsAt < p.size := by
    rw [size]
    omega
  have hfile : p.stringsAt < UInt64.size := Nat.lt_of_lt_of_le (lt_of_fits hfits (Nat.le_of_lt hsize)) p.word_le
  have hfirst : [p.loadedSegment, p.dynamicSegment].filter (·.kind = loaded) = [p.loadedSegment] := rfl
  have hfind : [p.loadedSegment].find? (fun s => decide (s.address ≤ p.base + p.stringsAt) &&
      decide (p.base + p.stringsAt - s.address < s.size)) = some p.loadedSegment := by
    refine List.find?_cons_of_pos ?_
    simp [loadedSegment, hsize]
  rw [offsetOf?, hfirst, hfind, Option.bind_some, loadedSegment]
  dsimp only
  rw [Nat.zero_add, Nat.add_sub_cancel_left, if_pos hfile]

/-- **The table is found**: the address of the strings is turned into their offset by the loaded segment. -/
theorem findTable_image (hfits : p.Fits) {h : Header} (hat : h.segmentsAt = p.headerSize)
    (hsize : h.segmentSize = p.segmentSize) (hcount : h.segmentCount = 2) :
    findTable p.view h = .ok (some (p.readRows, p.stringsAt)) := by
  have hfind : [p.loadedSegment, p.dynamicSegment].find? (·.kind = dynamic) = some p.dynamicSegment := rfl
  rw [findTable, segments_image hfits hat hsize hcount, ok_bind, hfind]
  dsimp only
  rw [segmentTable_image hfits, ok_bind]
  dsimp only
  rw [offsetOf?_image hfits]
  rfl

/-! ## (6) The names -/

/-- One name is read back. -/
theorem text_image {n : String} {before after : List UInt8} (hn : '\x00' ∉ n.toList)
    (htable : p.stringTable.toList = before ++ (n.toUTF8.toList ++ 0 :: after)) :
    p.view.text (p.stringsAt + before.length) = .ok n := by
  have hdrop := p.stands_strings.drop
  have hle := p.stands_strings.finish_le
  have hlength := congrArg List.length htable
  rw [Bytes.length_toList, List.length_append] at hlength
  rw [htable] at hdrop
  rw [Piece.finish] at hle
  generalize Piece.finish _ = finish at hdrop
  refine text_eq_ok.2 ⟨?_, n.toUTF8.toList, after ++ p.image.toList.drop finish, ?_, Utf8.zero_notMem hn, ?_⟩
  · have hbefore : before.length ≤ p.stringTable.size := by omega
    rw [data_view]
    exact Nat.le_trans (Nat.add_le_add_left hbefore _) hle
  · rw [data_view, ← List.drop_drop, hdrop, List.append_assoc, List.drop_left, List.append_assoc, List.cons_append]
  · rw [Bytes.ofList_toList, Utf8.lossy_toUTF8]

/-- The offsets of names lead to the names, whatever stands before them in the strings. -/
theorem names_image (hfits : p.Fits) {ns : List String} {before : List UInt8} (hns : ∀ n ∈ ns, '\x00' ∉ n.toList)
    (htable : p.stringTable.toList = before ++ strings ns) :
    ((nameOffsets before.length ns).map (neededTag, ·)).mapM
      (fun e => do p.view.text (← add p.stringsAt e.2)) = .ok ns := by
  induction ns generalizing before with
  | nil => rfl
  | cons n ns ih =>
    have htable' : p.stringTable.toList = before ++ (n.toUTF8.toList ++ 0 :: strings ns) := by
      rw [htable, strings, List.flatMap_cons, List.append_assoc, List.singleton_append]
      rfl
    have htable'' : p.stringTable.toList = (before ++ n.toUTF8.toList ++ [0]) ++ strings ns := by
      rw [htable', List.append_assoc, List.append_assoc, List.singleton_append]
    have hlength : (before ++ n.toUTF8.toList ++ [0]).length = before.length + n.toUTF8.size + 1 := by
      rw [List.length_append, List.length_append, List.length_singleton, Bytes.length_toList]
    have hfile : p.stringsAt + before.length < UInt64.size := by
      have hstrings := p.strings_le_tableAt
      have hsize := Nat.lt_of_lt_of_le (lt_of_fits hfits (show p.tableAt ≤ p.size from Nat.le_add_right _ _)) p.word_le
      have := congrArg List.length htable
      rw [Bytes.length_toList, List.length_append] at this
      omega
    have hrest := ih (fun m hm => hns m (List.mem_cons_of_mem _ hm)) htable''
    rw [hlength] at hrest
    rw [nameOffsets, List.map_cons, List.mapM_cons, add, if_pos hfile, ok_bind,
      text_image (hns n List.mem_cons_self) htable', ok_bind, hrest]
    rfl

end Plan

/-- What is left of a list of names: the first of equal names, without the empty one. -/
theorem distinct_eq (ns : List String) : distinct ns = (ns.filter (· ≠ "")).eraseDups := by
  induction ns using List.reverseRecOn with
  | nil => rfl
  | append_singleton ns n ih =>
    have hfound : (decide (n = "") || (distinct ns).contains n) = true ↔ n = "" ∨ n ∈ ns := by
      rw [Bool.or_eq_true, decide_eq_true_eq, List.contains_iff_mem, ih, List.mem_eraseDups, List.mem_filter,
        decide_eq_true_eq]
      tauto
    have hlast : ([n].filter (· ≠ "")).removeAll (ns.filter (· ≠ "")) = if n = "" ∨ n ∈ ns then [] else [n] := by
      by_cases hempty : n = "" <;> by_cases hmem : n ∈ ns <;> simp [hempty, hmem, List.removeAll]
    rw [distinct, List.foldl_append, List.foldl_cons, List.foldl_nil, ← distinct, List.filter_append,
      List.eraseDups_append, hlast, ← ih]
    split
    · next h => rw [if_pos (hfound.1 h), List.eraseDups_nil, List.append_nil]
    · next h =>
      rw [if_neg fun hout => h (hfound.2 hout)]
      rfl

namespace Plan

/-- **Round trip**: what is needed, read from the binary, is the list of names without empty names and repetitions. -/
theorem needed_image (p : Plan) (hfits : p.Fits) :
    needed p.image = .ok (p.names.filter (· ≠ "")).eraseDups := by
  obtain ⟨h, hheader, hat, hsize, hcount⟩ := header_image hfits
  have hfilter : p.readRows.filter (·.1 = neededTag) = (nameOffsets 1 p.names).map (neededTag, ·) := by
    rw [readRows, List.filter_append, List.filter_eq_self.2]
    · exact List.append_nil _
    · intro r hr
      obtain ⟨k, hk, rfl⟩ := List.mem_map.1 hr
      rfl
  have hnames : Elf.names p.view p.stringsAt p.readRows = .ok p.names := by
    rw [Elf.names, hfilter]
    exact names_image hfits hfits.names (show _ = [0] ++ _ from Bytes.toList_ofList _)
  rw [needed, viewOf_image, ok_bind, hheader, ok_bind, findTable_image hfits hat hsize hcount, ok_bind]
  dsimp only
  rw [hnames, ok_bind, distinct_eq]
  rfl

/-- A plan with an empty name and with one name twice, in words of four bytes, most significant byte first. -/
def repetitive : Plan := ⟨false, true, 0x10000, ["b", "", "a", "b"]⟩

/-- The empty name is left out, and one that is planned twice is told once, where it comes first. -/
theorem needed_repetitive : repetitive.Fits ∧ needed repetitive.image = .ok ["b", "a"] := by
  have hfits : repetitive.Fits := ⟨by decide +kernel, by decide +kernel, by decide +kernel⟩
  exact ⟨hfits, needed_image repetitive hfits⟩

end Plan

end Elf

end LayeredBundles
