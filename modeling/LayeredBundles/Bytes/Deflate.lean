import LayeredBundles.Bytes.Word

/-! # Unpacking deflated bytes

A deflated stream is a sequence of bits, least significant first within a byte, cut into blocks:
stored, packed with a fixed code, or packed with a code that the block itself describes.

* **`Deflate.Code`** — a canonical prefix code;
* **`Deflate.Code.decode`** — the next symbol;
* **`Deflate.inflate`** — the unpacked bytes, and whether the stream was complete, cut off or damaged.

Every symbol takes at least one bit (`Code.decode_length`), so unpacking ends. -/

namespace LayeredBundles

namespace Deflate

/-- How unpacking came to an end. -/
inductive Ending where
  /-- The last block is complete. -/
  | complete
  /-- The bits ended early. -/
  | cut
  /-- The bits are no deflated stream. -/
  | damaged
  deriving DecidableEq, Repr

/-- The bits of some bytes, least significant first within a byte. -/
def bitsOf (d : ByteArray) : List Bool :=
  d.toList.flatMap fun b => (List.range 8).map fun i => b.toNat.testBit i

/-- The number of `n` bits, least significant first, and the bits after them. -/
def number : Nat → List Bool → Except Ending (Nat × List Bool)
  | 0, bits => .ok (0, bits)
  | _ + 1, [] => .error .cut
  | n + 1, b :: bits => do
    let (v, rest) ← number n bits
    return (b.toNat + 2 * v, rest)

/-- A number takes as many bits as it has. -/
theorem number_length {n : Nat} {bits rest : List Bool} {v : Nat}
    (h : number n bits = .ok (v, rest)) : rest.length + n = bits.length := by
  induction n generalizing bits v with
  | zero => simp [number] at h; simp [h.2]
  | succ n ih =>
    cases bits with
    | nil => simp [number] at h
    | cons b bits =>
      simp only [number] at h
      cases hn : number n bits with
      | error e => simp [hn, bind, Except.bind] at h
      | ok p =>
        obtain ⟨w, r⟩ := p
        simp only [hn, bind, Except.bind, pure, Except.pure, Except.ok.injEq, Prod.mk.injEq] at h
        obtain ⟨-, rfl⟩ := h
        have := ih hn
        simp only [List.length_cons]; omega

/-! ## (1) Prefix codes -/

/-- A canonical code: how many symbols have each length from one bit on, and the symbols by length. -/
structure Code where
  /-- Symbols of each length. -/
  counts : List Nat
  /-- Symbols, shorter ones first, of one length in ascending order. -/
  symbols : Array Nat

/-- The greatest length of a code word. -/
def maxLength : Nat := 15

/-- The number of bit patterns of the greatest length. -/
def patterns : Nat := Nat.pow 2 maxLength

/-- The code of given lengths, zero for an unused symbol. Fails unless the code words of those
lengths use up all bit patterns; a code of at most one word may leave some unused when `sparse`. -/
def Code.ofLengths (sparse : Bool) (lengths : List Nat) : Except Ending Code :=
  let counts := (List.range maxLength).map fun i => lengths.count (i + 1)
  let used := counts.foldl (· + ·) 0
  let share := counts.foldl (fun s c => 2 * s + c) 0
  if share = patterns || (sparse && used ≤ 1) then
    let numbered := lengths.zipIdx
    -- words of one length are given out in the order of their symbols
    .ok ⟨counts, ((List.range maxLength).flatMap fun i =>
      (numbered.filter (·.1 = i + 1)).map (·.2)).toArray⟩
  else .error .damaged

/-- The symbol whose word the bits begin with. `word` is what has been read, `least` the first word of
the length at hand and `index` the number of its symbol. -/
def decodeFrom (symbols : Array Nat) :
    List Nat → (word least index : Nat) → List Bool → Except Ending (Nat × List Bool)
  | [], _, _, _, _ => .error .damaged
  | _ :: _, _, _, _, [] => .error .cut
  | count :: counts, word, least, index, b :: bits =>
    let word := 2 * word + b.toNat
    -- among the words of this length
    if word < least + count then
      match symbols[index + (word - least)]? with
      | some s => .ok (s, bits)
      | none => .error .damaged
    else decodeFrom symbols counts word (2 * (least + count)) (index + count) bits

/-- The symbol whose word the bits begin with, and the bits after it. -/
def Code.decode (c : Code) (bits : List Bool) : Except Ending (Nat × List Bool) :=
  decodeFrom c.symbols c.counts 0 0 0 bits

/-- A symbol that is decoded takes a bit at least. -/
theorem decodeFrom_length {symbols : Array Nat} {counts : List Nat} {word least index s : Nat}
    {bits rest : List Bool} (h : decodeFrom symbols counts word least index bits = .ok (s, rest)) :
    rest.length < bits.length := by
  induction counts generalizing word least index bits with
  | nil => simp [decodeFrom] at h
  | cons count counts ih =>
    cases bits with
    | nil => simp [decodeFrom] at h
    | cons b bits =>
      simp only [decodeFrom] at h
      split at h
      · split at h
        · simp only [Except.ok.injEq, Prod.mk.injEq] at h; simp [h.2]
        · simp at h
      · have := ih h
        simp only [List.length_cons]; omega

/-- So does one of a whole code. -/
theorem Code.decode_length {c : Code} {bits rest : List Bool} {s : Nat}
    (h : c.decode bits = .ok (s, rest)) : rest.length < bits.length := decodeFrom_length h

/-- The symbol that ends a block; smaller ones are literal bytes. -/
def endOfBlock : Nat := 256

/-- The code of literals and lengths of a block with the fixed code. -/
def fixedLiterals : List Nat :=
  List.replicate 144 8 ++ List.replicate 112 9 ++ List.replicate 24 7 ++ List.replicate 8 8

/-- The code of distances of a block with the fixed code. -/
def fixedDistances : List Nat := List.replicate 32 5

/-! ## (2) Copies -/

/-- Least length and extra bits of each length symbol, from symbol 257 on. -/
def lengthTable : Array (Nat × Nat) := #[
  (3, 0), (4, 0), (5, 0), (6, 0), (7, 0), (8, 0), (9, 0), (10, 0), (11, 1), (13, 1), (15, 1), (17, 1),
  (19, 2), (23, 2), (27, 2), (31, 2), (35, 3), (43, 3), (51, 3), (59, 3), (67, 4), (83, 4), (99, 4),
  (115, 4), (131, 5), (163, 5), (195, 5), (227, 5), (258, 0)]

/-- Least distance and extra bits of each distance symbol. -/
def distanceTable : Array (Nat × Nat) := #[
  (1, 0), (2, 0), (3, 0), (4, 0), (5, 1), (7, 1), (9, 2), (13, 2), (17, 3), (25, 3), (33, 4), (49, 4),
  (65, 5), (97, 5), (129, 6), (193, 6), (257, 7), (385, 7), (513, 8), (769, 8), (1025, 9), (1537, 9),
  (2049, 10), (3073, 10), (4097, 11), (6145, 11), (8193, 12), (12289, 12), (16385, 13), (24577, 13)]

/-- A number from a table row and the extra bits that follow. -/
def extended (table : Array (Nat × Nat)) (row : Nat) (bits : List Bool) :
    Except Ending (Nat × List Bool) :=
  match table[row]? with
  | some (least, extra) => do
    let (v, rest) ← number extra bits
    return (least + v, rest)
  | none => .error .damaged

/-- Further bits of a length or a distance are taken from the front. -/
theorem extended_length {table : Array (Nat × Nat)} {row v : Nat} {bits rest : List Bool}
    (h : extended table row bits = .ok (v, rest)) : rest.length ≤ bits.length := by
  unfold extended at h
  split at h
  · next least extra _ =>
    cases hn : number extra bits with
    | error e => simp [hn, bind, Except.bind] at h
    | ok p =>
      obtain ⟨w, r⟩ := p
      simp only [hn, bind, Except.bind, pure, Except.pure, Except.ok.injEq, Prod.mk.injEq] at h
      have := number_length hn
      rw [← h.2]; omega
  · simp at h

/-- Append `count` bytes, each the one `distance` before it. -/
def copyBack (distance : Nat) : Nat → ByteArray → ByteArray
  | 0, out => out
  | count + 1, out => copyBack distance count (out.push (Bytes.byteAt out (out.size - distance)))

/-! ## (3) Blocks -/

/-- What a block leaves behind: the output, and the bits after it or how unpacking ended. -/
abbrev Step := ByteArray × Except Ending (List Bool)

/-- One item of a packed block. -/
inductive Item where
  /-- A byte of its own. -/
  | literal (b : UInt8)
  /-- The end of the block. -/
  | stop
  /-- A copy of earlier output. -/
  | copy (count distance : Nat)

/-- The copy that a length symbol begins, and the bits after it. -/
def copyOf (distances : Code) (symbol : Nat) (bits : List Bool) : Except Ending (Item × List Bool) :=
  match extended lengthTable (symbol - 257) bits with
  | .error e => .error e
  | .ok (count, bits) =>
    match distances.decode bits with
    | .error e => .error e
    | .ok (row, bits) =>
      match extended distanceTable row bits with
      | .error e => .error e
      | .ok (distance, bits) => .ok (.copy count distance, bits)

/-- A copy takes a bit at least. -/
theorem copyOf_length {distances : Code} {symbol : Nat} {item : Item} {bits rest : List Bool}
    (h : copyOf distances symbol bits = .ok (item, rest)) : rest.length < bits.length := by
  unfold copyOf at h
  split at h
  · simp at h
  next count r₁ h₁ =>
    split at h
    · simp at h
    next row r₂ h₂ =>
      split at h
      · simp at h
      next distance r₃ h₃ =>
        simp only [Except.ok.injEq, Prod.mk.injEq] at h
        obtain ⟨-, rfl⟩ := h
        have := extended_length h₁
        have := Code.decode_length h₂
        have := extended_length h₃
        omega

/-- The next item of a packed block, and the bits after it. -/
def nextItem (literals distances : Code) (bits : List Bool) : Except Ending (Item × List Bool) :=
  match literals.decode bits with
  | .error e => .error e
  | .ok (symbol, bits) =>
    if symbol < endOfBlock then .ok (.literal (UInt8.ofNat symbol), bits)
    else if symbol = endOfBlock then .ok (.stop, bits)
    else copyOf distances symbol bits

/-- So does every item, which is why a block ends. -/
theorem nextItem_length {literals distances : Code} {item : Item} {bits rest : List Bool}
    (h : nextItem literals distances bits = .ok (item, rest)) : rest.length < bits.length := by
  unfold nextItem at h
  split at h
  · simp at h
  next symbol r h₁ =>
    have := Code.decode_length h₁
    split at h
    · simp only [Except.ok.injEq, Prod.mk.injEq] at h
      obtain ⟨-, rfl⟩ := h; exact this
    · split at h
      · simp only [Except.ok.injEq, Prod.mk.injEq] at h
        obtain ⟨-, rfl⟩ := h; exact this
      · have := copyOf_length h; omega

/-- The items of a packed block up to its end. -/
def packed (literals distances : Code) (out : ByteArray) (bits : List Bool) : Step :=
  match h : nextItem literals distances bits with
  | .error e => (out, .error e)
  | .ok (item, rest) =>
    have := nextItem_length h
    match item with
    | .literal b => packed literals distances (out.push b) rest
    | .stop => (out, .ok rest)
    | .copy count distance =>
      -- nothing stands before the first byte
      if distance > out.size then (out, .error .damaged)
      else packed literals distances (copyBack distance count out) rest
termination_by bits.length

/-- Append `count` whole bytes. -/
def literally : Nat → ByteArray → List Bool → Step
  | 0, out, bits => (out, .ok bits)
  | count + 1, out, bits =>
    match number 8 bits with
    | .error e => (out, .error e)
    | .ok (b, rest) => literally count (out.push (UInt8.ofNat b)) rest

/-- A stored block: after the next whole byte, its length, the complement of that, and the bytes. -/
def stored (out : ByteArray) (bits : List Bool) : Step :=
  match number 16 (bits.drop (bits.length % 8)) with
  | .error e => (out, .error e)
  | .ok (count, rest) =>
    match number 16 rest with
    | .error e => (out, .error e)
    | .ok (check, rest) =>
      if count + check = 0xFFFF then literally count out rest else (out, .error .damaged)

/-- The order in which the lengths of the code for code lengths are given. -/
def lengthOrder : List Nat := [16, 17, 18, 0, 8, 7, 9, 6, 10, 5, 11, 4, 12, 3, 13, 2, 14, 1, 15]

/-- `count` numbers of three bits. -/
def threeBits : Nat → List Bool → Except Ending (List Nat × List Bool)
  | 0, bits => .ok ([], bits)
  | count + 1, bits => do
    let (v, rest) ← number 3 bits
    let (vs, rest) ← threeBits count rest
    return (v :: vs, rest)

/-- What a symbol of the code for code lengths adds, newest first: a length, the last length
repeated (16), or zero repeated (17 and 18). -/
def moreLengths (known : List Nat) (symbol : Nat) (bits : List Bool) :
    Except Ending (List Nat × List Bool) :=
  let repeated (value? : Option Nat) (extra least : Nat) : Except Ending (List Nat × List Bool) :=
    match value? with
    | none => .error .damaged
    | some value => do
      let (v, rest) ← number extra bits
      return (List.replicate (least + v) value, rest)
  if symbol < 16 then .ok ([symbol], bits)
  else if symbol = 16 then repeated known.head? 2 3
  else if symbol = 17 then repeated (some 0) 3 3
  else repeated (some 0) 7 11

/-- Code lengths until there are `total`; `known` are the ones read, newest first. Each symbol takes a
bit at least, so `steps` symbols at most have to be read when there are `steps` bits. -/
def codeLengths (code : Code) (total : Nat) : Nat → List Nat → List Bool →
    Except Ending (List Nat × List Bool)
  | 0, known, bits => if known.length = total then .ok (known.reverse, bits) else .error .cut
  | steps + 1, known, bits =>
    if known.length = total then .ok (known.reverse, bits)
    -- a repetition may not run past the last length
    else if known.length > total then .error .damaged
    else do
      let (symbol, bits) ← code.decode bits
      let (more, bits) ← moreLengths known symbol bits
      codeLengths code total steps (more ++ known) bits

/-- The two codes a block describes. -/
def describedCodes (bits : List Bool) : Except Ending (Code × Code × List Bool) := do
  let (literalCount, bits) ← number 5 bits
  let (distanceCount, bits) ← number 5 bits
  let (orderCount, bits) ← number 4 bits
  let (given, bits) ← threeBits (orderCount + 4) bits
  -- lengths that are not given are zero
  let pairs := lengthOrder.zip given
  let lengthCode ← Code.ofLengths false ((List.range 19).map fun i => (pairs.lookup i).getD 0)
  let total := literalCount + 257 + (distanceCount + 1)
  let (lengths, bits) ← codeLengths lengthCode total bits.length [] bits
  let literals ← Code.ofLengths true (lengths.take (literalCount + 257))
  let distances ← Code.ofLengths true (lengths.drop (literalCount + 257))
  return (literals, distances, bits)

/-- One block after its first bit: two bits tell its kind. -/
def block (out : ByteArray) (bits : List Bool) : Step :=
  match number 2 bits with
  | .error e => (out, .error e)
  | .ok (0, rest) => stored out rest
  | .ok (1, rest) =>
    match Code.ofLengths true fixedLiterals, Code.ofLengths true fixedDistances with
    | .ok literals, .ok distances => packed literals distances out rest
    | _, _ => (out, .error .damaged)
  | .ok (2, rest) =>
    match describedCodes rest with
    | .error e => (out, .error e)
    | .ok (literals, distances, rest) => packed literals distances out rest
  | .ok _ => (out, .error .damaged)

/-- Blocks up to the one marked as the last. The first bit of every block is gone afterwards, so
`steps` blocks at most have to be read when there are `steps` bits. -/
def blocks : Nat → ByteArray → List Bool → ByteArray × Ending
  | 0, out, _ => (out, .cut)
  | _ + 1, out, [] => (out, .cut)
  | steps + 1, out, last :: bits =>
    match block out bits with
    | (out, .error e) => (out, e)
    | (out, .ok rest) => if last then (out, .complete) else blocks steps out rest

/-- Unpack a deflated stream; what comes after its end is not looked at. -/
def inflate (d : ByteArray) : ByteArray × Ending :=
  blocks (8 * d.size) ByteArray.empty (bitsOf d)

end Deflate

end LayeredBundles
