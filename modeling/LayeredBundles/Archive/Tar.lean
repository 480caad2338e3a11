import LayeredBundles.Archive.Member
import LayeredBundles.Bytes.Word
import LayeredBundles.Text.Blank
import LayeredBundles.Text.Utf8

/-! # The members of a tar container

A tar container is a sequence of blocks of 512 bytes: for each member a header block and the blocks of
its bytes. Some members only describe the one after them.

* **`Tar.octal?`**, **`Tar.number?`** — the numbers of a header;
* **`Tar.Pending`** — what earlier members said about the next one;
* **`Tar.sparseEnd?`** — the checks on the map of a sparse file;
* **`Tar.members`** — the members of a container, up to a block of zeros or the end of the file. -/

namespace LayeredBundles

namespace Tar

/-- Why a file is no tar container. -/
inductive Fault where
  /-- The file ends within a header block. -/
  | cutBlock
  /-- The checksum of a header is wrong. -/
  | checksum
  /-- A field of a header is no number. -/
  | badNumber
  /-- A size leaves the range of 64 bits. -/
  | tooLarge
  /-- Two descriptions of one kind of the same member. -/
  | doubled
  /-- A description of a member that does not come. -/
  | lone
  /-- The map of a sparse file contradicts itself or the header. -/
  | badSparseMap
  deriving DecidableEq, Repr

/-- A fault in words. -/
def Fault.message : Fault → String
  | .cutBlock => "header block cut off"
  | .checksum => "header checksum mismatch"
  | .badNumber => "numeric field is no number"
  | .tooLarge => "size overflow"
  | .doubled => "two descriptions of one member"
  | .lone => "description without a member"
  | .badSparseMap => "invalid map of a sparse file"

/-- Bytes of a block. -/
def blockSize : Nat := 512

/-! ## (1) Fields -/

/-- The bytes of a field. -/
def field (block : ByteArray) (offset length : Nat) : List UInt8 :=
  (block.extract offset (offset + length)).toList

/-- The bytes in front of the first zero byte. -/
def upToZero (bs : List UInt8) : List UInt8 := bs.takeWhile (· ≠ 0)

/-- A number of 64 bits written in the given base, an optional plus sign in front. -/
def digits? (base : Nat) (cs : List Char) : Option Nat :=
  let ds := match cs with
    | '+' :: rest => rest
    | rest => rest
  if ds ≠ [] ∧ ds.all (fun c => c.isDigit && c.toNat - 48 < base) then
    let n := ds.foldl (fun n c => base * n + (c.toNat - 48)) 0
    if n < UInt64.size then some n else none
  else none

/-- An octal number, up to a zero byte and without the blanks around it. -/
def octal? (bs : List UInt8) : Option Nat :=
  (String.fromUTF8? (Bytes.ofList (upToZero bs))).bind fun s => digits? 8 (Text.trimChars s.toList)

/-- A number: octal, or when the highest bit is set the last eight bytes of the field. -/
def number? (bs : List UInt8) : Option Nat :=
  if (bs.head?.getD 0) ≥ 0x80 then some (Bytes.bigOf (bs.drop (bs.length - 8))) else octal? bs

/-- The old form of headers has neither of the two marks. -/
inductive Dialect where
  /-- No mark. -/
  | old
  /-- The mark of the standard. -/
  | standard
  /-- The mark of the GNU extensions. -/
  | gnu
  deriving DecidableEq, Repr

/-- The dialect of a header. -/
def dialect (block : ByteArray) : Dialect :=
  let mark := field block 257 8
  if mark = "ustar\x0000".toUTF8.toList then .standard
  else if mark = "ustar  \x00".toUTF8.toList then .gnu
  else .old

/-- The type of the member. -/
def type (block : ByteArray) : UInt8 := Bytes.byteAt block 156

/-- Whether the checksum is that of the block, with blanks in its own place. -/
def checksumHolds (block : ByteArray) : Except Fault Unit :=
  match octal? (field block 148 8) with
  | none => .error .badNumber
  | some n =>
    -- 256 is the sum of eight blanks
    let sum := (field block 0 148 ++ field block 156 356).foldl (fun s b => s + b.toNat) 256
    if n % UInt32.size = sum then .ok () else .error .checksum

/-- The path of a header: in the standard dialect the second name field goes in front. -/
def headerPath (block : ByteArray) : List UInt8 :=
  let name := upToZero (field block 0 100)
  let front := upToZero (field block 345 155)
  if dialect block = .standard && front ≠ [] then front ++ [0x2f] ++ name else name

/-! ## (2) Descriptions of the next member -/

/-- Lines of key and value. A line begins with its own length in decimal; `none` stands for a line that
is not of this form, and an empty line ends the list. -/
def extensionLines (d : List UInt8) : List (Option (List UInt8 × List UInt8)) :=
  let lines := (splitBytes 0x0a d).takeWhile (· ≠ [])
  lines.map fun line =>
    let digits := line.takeWhile (· ≠ 0x20)
    let rest := (line.drop digits.length).drop 1
    let length := (String.fromUTF8? (Bytes.ofList digits)).bind fun s => digits? 10 s.toList
    if digits.length < line.length && length = some (line.length + 1) && rest.contains 0x3d then
      let key := rest.takeWhile (· ≠ 0x3d)
      some (key, rest.drop (key.length + 1))
    else none
where
  /-- The pieces between separators. -/
  splitBytes (sep : UInt8) : List UInt8 → List (List UInt8)
    | [] => [[]]
    | b :: bs =>
      if b = sep then [] :: splitBytes sep bs
      else match splitBytes sep bs with
        | [] => [[b]]
        | s :: ss => (b :: s) :: ss

/-- The path among the lines: the first one with that key. -/
def extensionPath? (d : List UInt8) : Option (List UInt8) :=
  (extensionLines d).findSome? fun line => (line.filter (·.1 = "path".toUTF8.toList)).map (·.2)

/-- The size among the lines: the first one with that key, provided no line before it is malformed and
its value is a number. -/
def extensionSize? (d : List UInt8) : Option Nat :=
  go (extensionLines d)
where
  /-- The size among the lines that are left. -/
  go : List (Option (List UInt8 × List UInt8)) → Option Nat
    | [] => none
    | none :: _ => none
    | some (key, value) :: rest =>
      if key = "size".toUTF8.toList then
        (String.fromUTF8? (Bytes.ofList value)).bind fun s => digits? 10 s.toList
      else go rest

/-- What has been said about the next member. -/
structure Pending where
  /-- Its path, in full. -/
  longName : Option (List UInt8)
  /-- The target of its link. -/
  longLink : Option (List UInt8)
  /-- Lines of keys and values. -/
  extensions : Option (List UInt8)

/-- Nothing has been said. -/
def Pending.nothing : Pending := ⟨none, none, none⟩

/-- Whether anything has been said. -/
def Pending.present (p : Pending) : Bool := p.longName.isSome || p.longLink.isSome || p.extensions.isSome

/-- The path of a member: the long name without a zero byte at its end, else the path among the
extensions, else that of the header. -/
def pathOf (block : ByteArray) (p : Pending) : List UInt8 :=
  match p.longName with
  | some bs => if bs.getLast? = some 0 then bs.dropLast else bs
  | none => ((p.extensions.bind extensionPath?).getD (headerPath block))

/-! ## (3) Sparse files -/

/-- How far a sparse file has been described: the end of its last piece, and the bytes of the member
not yet given to a piece. -/
structure SparseState where
  /-- End of the last piece. -/
  reached : Nat
  /-- Bytes left. -/
  left : Nat

/-- One more piece, from its 24 bytes; an empty field is no piece. -/
def sparsePiece? (size : Nat) (s : SparseState) (piece : List UInt8) : Option SparseState :=
  let offsetField := piece.take 12
  let lengthField := piece.drop 12
  if offsetField.head? = some 0 || lengthField.head? = some 0 then some s
  else do
    let offset ← octal? offsetField
    let length ← octal? lengthField
    -- the bytes given to the pieces before it are whole blocks
    if length ≠ 0 && (size - s.left) % blockSize ≠ 0 then none
    else if offset < s.reached || offset + length ≥ UInt64.size || length > s.left then none
    else some ⟨offset + length, s.left - length⟩

/-- `count` pieces from `offset` of a block on. -/
def sparsePieces? (block : ByteArray) (size : Nat) (s : SparseState) (offset count : Nat) :
    Option SparseState :=
  (List.range count).foldlM (fun s i => sparsePiece? size s (field block (offset + 24 * i) 24)) s

/-- The further blocks of the map from `p` on, and where they end. There are at most `steps` blocks in
the file. -/
def sparseBlocks? (d : ByteArray) (size : Nat) : Nat → SparseState → Nat → Option (SparseState × Nat)
  | 0, _, _ => none
  | steps + 1, s, p =>
    if p + blockSize ≤ d.size then do
      let block := d.extract p (p + blockSize)
      let s ← sparsePieces? block size s 0 21
      if Bytes.byteAt block 504 = 1 then sparseBlocks? d size steps s (p + blockSize)
      else some (s, p + blockSize)
    else none

/-- Where the map of the sparse file whose header is `block` ends, if it is well formed: its pieces
ascend, use up the bytes of the member and end at the real size. `p` is where further blocks begin. -/
def sparseEnd? (d : ByteArray) (block : ByteArray) (size p : Nat) : Option Nat := do
  if dialect block ≠ .gnu then none
  else
    let s ← sparsePieces? block size ⟨0, size⟩ 386 4
    let (s, p) ←
      if Bytes.byteAt block 482 = 1 then sparseBlocks? d size (d.size / blockSize) s p
      else some (s, p)
    let real ← octal? (field block 483 12)
    if s.reached = real && s.left = 0 then some p else none

/-! ## (4) Members -/

/-- A size in whole blocks. -/
def rounded (size : Nat) : Nat := (size + (blockSize - 1)) / blockSize * blockSize

/-- The recorded time, at most the greatest number of 63 bits. -/
def timestampOf (block : ByteArray) : Except Fault Int :=
  match number? (field block 136 12) with
  | some n => .ok (min n (0x7FFFFFFFFFFFFFFF))
  | none => .error .badNumber

/-- The member of a header with `size` bytes at `dataAt`; nothing for an empty path, and for types that
are neither file nor directory. -/
def member? (block : ByteArray) (p : Pending) (size dataAt : Nat) : Except Fault (Option Member) :=
  let path := ArchivePath.normalize (Utf8.lossy (Bytes.ofList (pathOf block p)))
  if path = "" then .ok none
  else do
    let timestamp ← timestampOf block
    match Char.ofNat (type block).toNat with
    | '5' => return some ⟨Entry.directory path timestamp, none, .none⟩
    | '0' | '\x00' | '7' => return some ⟨Entry.file path size timestamp, none, .span dataAt size⟩
    | _ => return none

/-- What a member says about the next one, if it is of a type that does so and has a mark. -/
def describe? (block : ByteArray) (p : Pending) (content : List UInt8) : Option (Except Fault Pending) :=
  if dialect block = .old then none
  else match Char.ofNat (type block).toNat with
    | 'L' => some (if p.longName.isSome then .error .doubled else .ok { p with longName := some content })
    | 'K' => some (if p.longLink.isSome then .error .doubled else .ok { p with longLink := some content })
    | 'x' =>
      some (if p.extensions.isSome then .error .doubled else .ok { p with extensions := some content })
    | _ => none

/-- The size of a member: that among the extensions wins. -/
def sizeOf (block : ByteArray) (p : Pending) : Except Fault Nat :=
  match number? (field block 124 12) with
  | none => .error .badNumber
  | some n => .ok ((p.extensions.bind extensionSize?).getD n)

/-- What reading one header comes to. -/
inductive Step where
  /-- The container ends here. -/
  | stop
  /-- A member that counts, if any; what has been said about the next one; and where that begins. -/
  | go (found : Option Member) (p : Pending) (next : Nat)

/-- The member whose header `block` stands at `next`: either it describes the next one, or it is one by
itself. -/
def headerStep (d : ByteArray) (p : Pending) (next : Nat) (block : ByteArray) : Except Fault Step := do
  checksumHolds block
  let size ← sizeOf block p
  let dataAt := next + blockSize
  let after := dataAt + rounded size
  if size + blockSize > UInt64.size || after ≥ UInt64.size then .error .tooLarge
  else
    let content := d.extract dataAt (dataAt + size)
    match describe? block p content.toList with
    | some described =>
      let p ← described
      -- what is left to skip of the member has to be a number of 63 bits
      if rounded size - content.size ≥ 0x8000000000000000 then .error .tooLarge
      else return .go none p after
    | none =>
      let isSparse := Char.ofNat (type block).toNat = 'S'
      match (if isSparse then sparseEnd? d block size dataAt else some dataAt) with
      | none => .error .badSparseMap
      | some mapEnd =>
        -- a sparse file is no member that counts, but its map is skipped with its bytes
        let found ← member? block p size dataAt
        if rounded size ≥ 0x8000000000000000 then .error .tooLarge
        else return .go found Pending.nothing (after + (mapEnd - dataAt))

/-- One step at `next`: a block of zeros and the end of the file end the container. -/
def step (d : ByteArray) (p : Pending) (next : Nat) : Except Fault Step :=
  let atEnd : Except Fault Step := if p.present then .error .lone else .ok .stop
  if next + blockSize ≤ d.size then
    let block := d.extract next (next + blockSize)
    if block.toList.all (· = 0) then atEnd else headerStep d p next block
  else if next < d.size then .error .cutBlock
  else atEnd

/-- The members from `next` on. Each step takes a block at least, so `steps` steps suffice when there
are fewer blocks. -/
def membersFrom (d : ByteArray) : Nat → Pending → Nat → Except Fault (List Member)
  | 0, _, _ => .ok []
  | steps + 1, p, next => do
    match ← step d p next with
    | .stop => return []
    | .go found p next =>
      let rest ← membersFrom d steps p next
      return found.toList ++ rest

/-- The members of a tar container. -/
def members (d : ByteArray) : Except Fault (List Member) :=
  membersFrom d (d.size / blockSize + 1) Pending.nothing 0

end Tar

end LayeredBundles
