import LayeredBundles.Archive.Member
import LayeredBundles.Bytes.Crc32
import LayeredBundles.Bytes.Word
import LayeredBundles.Calendar
import LayeredBundles.Text.CodePage437
import LayeredBundles.Text.Utf8

/-! # The members of a zip container

A zip container ends with an **end record** that points to the **central directory**, a list of
headers, one a member. Each of them points to the local header in front of the member's bytes.

* **`Zip.EndRecord`**, **`Zip.WideEndRecord`** — the end record in its two widths;
* **`Zip.locate`** — where the central directory begins, and how far the container is shifted in its
  file by bytes put in front of it;
* **`Zip.Header`** — what is used of a central header, after its extra fields;
* **`Zip.directory?`** — the headers of a central directory;
* **`Zip.members`** — the members of a container.

End records are tried from the back of the file; the first one whose directory can be read counts. -/

namespace LayeredBundles

namespace Zip

/-- Why a file has no central directory. -/
inductive Fault where
  /-- The last thing that looks like an end record is cut off by the end of the file. -/
  | cutEndRecord
  /-- Nothing looks like an end record. -/
  | noEndRecord
  /-- The comment of the end record runs past the end of the file. -/
  | longComment
  /-- The directory would begin at or after the end record. -/
  | lateDirectory
  /-- No central header stands where the directory should be. -/
  | noDirectory
  /-- The wide end record is missing or contradicts its locator. -/
  | badWideRecord
  deriving DecidableEq, Repr

/-- A fault in words. -/
def Fault.message : Fault → String
  | .cutEndRecord => "end record cut off"
  | .noEndRecord => "no end record"
  | .longComment => "comment of the end record too long"
  | .lateDirectory => "central directory after the end record"
  | .noDirectory => "no central directory"
  | .badWideRecord => "invalid wide end record"

/-! ## (1) Marks and numbers -/

/-- The mark of a local header. -/
def localMark : Nat := 0x04034b50

/-- The mark of a central header. -/
def centralMark : Nat := 0x02014b50

/-- The mark of an end record. -/
def endMark : Nat := 0x06054b50

/-- The mark of a wide end record. -/
def wideEndMark : Nat := 0x06064b50

/-- The mark of the locator of a wide end record. -/
def locatorMark : Nat := 0x07064b50

/-- The greatest number of two bytes, which stands for a number that does not fit. -/
def full16 : Nat := 0xFFFF

/-- The greatest number of four bytes, which stands for a number that does not fit. -/
def full32 : Nat := 0xFFFFFFFF

/-- Whether `mark` stands at `offset`. -/
def markAt (d : ByteArray) (mark offset : Nat) : Bool :=
  offset + 4 ≤ d.size && Bytes.byteAt d offset = UInt8.ofNat mark
    && Bytes.byteAt d (offset + 1) = UInt8.ofNat (mark / 256)
    && Bytes.byteAt d (offset + 2) = UInt8.ofNat (mark / 65536)
    && Bytes.byteAt d (offset + 3) = UInt8.ofNat (mark / 16777216)

/-- The offsets at which a whole `mark` stands between `low` and `high`, ascending. -/
def marksBetween (d : ByteArray) (mark low high : Nat) : List Nat :=
  ((List.range (high - 3 - low)).map (low + ·)).filter (markAt d mark)

/-! ## (2) The end record -/

/-- An end record. -/
structure EndRecord where
  /-- Where it stands. -/
  position : Nat
  /-- Number of this disk. -/
  disk : Nat
  /-- Number of the disk on which the directory begins. -/
  directoryDisk : Nat
  /-- Headers on this disk. -/
  countHere : Nat
  /-- Headers in all. -/
  count : Nat
  /-- Offset of the directory in the container. -/
  directoryOffset : Nat

/-- The end record at `position`, whose comment lies in the file. -/
def endRecordAt (d : ByteArray) (position : Nat) : Except Fault EndRecord :=
  let number (offset width : Nat) : Except Fault Nat :=
    match Bytes.little? d (position + offset) width with
    | some n => .ok n
    | none => .error .cutEndRecord
  do
    let disk ← number 4 2
    let directoryDisk ← number 6 2
    let countHere ← number 8 2
    let count ← number 10 2
    let directoryOffset ← number 16 4
    let commentLength ← number 20 2
    if position + 22 + commentLength ≤ d.size then
      return ⟨position, disk, directoryDisk, countHere, count, directoryOffset⟩
    else .error .longComment

/-- A wide end record. -/
structure WideEndRecord where
  /-- Where it stands. -/
  position : Nat
  /-- Length of the record, without its first twelve bytes. -/
  length : Nat
  /-- Version of the writer. -/
  madeBy : Nat
  /-- Version needed to read. -/
  needed : Nat
  /-- Number of this disk. -/
  disk : Nat
  /-- Number of the disk on which the directory begins. -/
  directoryDisk : Nat
  /-- Headers on this disk. -/
  countHere : Nat
  /-- Headers in all. -/
  count : Nat
  /-- Offset of the directory in the container. -/
  directoryOffset : Nat

/-- The wide end record at `position`. -/
def wideEndRecordAt? (d : ByteArray) (position : Nat) : Option WideEndRecord := do
  let length ← Bytes.little? d (position + 4) 8
  let madeBy ← Bytes.little? d (position + 12) 2
  let needed ← Bytes.little? d (position + 14) 2
  let disk ← Bytes.little? d (position + 16) 4
  let directoryDisk ← Bytes.little? d (position + 20) 4
  let countHere ← Bytes.little? d (position + 24) 8
  let count ← Bytes.little? d (position + 32) 8
  let directoryOffset ← Bytes.little? d (position + 48) 8
  return ⟨position, length, madeBy, needed, disk, directoryDisk, countHere, count, directoryOffset⟩

/-- The locator in front of an end record: the disk of the directory, the offset of the wide end record
in the container, and the number of disks. -/
def locatorBefore? (d : ByteArray) (position : Nat) : Option (Nat × Nat × Nat) :=
  if 20 ≤ position && markAt d locatorMark (position - 20) then do
    let disk ← Bytes.little? d (position - 16) 4
    let offset ← Bytes.little? d (position - 12) 8
    let disks ← Bytes.little? d (position - 4) 4
    return (disk, offset, disks)
  else none

/-- Where a central directory is, and what was announced of it. -/
structure Located where
  /-- How far the container is shifted in its file. -/
  shift : Nat
  /-- Where the directory begins in the file. -/
  start : Nat
  /-- How many headers it has. -/
  count : Nat
  /-- Whether it stands on the disk of the end record. -/
  oneDisk : Bool

/-- Whether a wide end record fits its place: it ends at the locator, agrees with it about the disk, and
leaves room for the directory. -/
def WideEndRecord.fits (w : WideEndRecord) (locatorDisk locatorAt : Nat) : Bool :=
  44 ≤ w.length && w.length + 12 = locatorAt - w.position && w.directoryDisk = locatorDisk
    && w.count * 46 + w.directoryOffset ≤ w.position

/-- The directory of an end record of the narrow width. The first central header at or after the
announced offset tells the shift; without headers the shift is what lies in front of the record. -/
def locateNarrow (d : ByteArray) (e : EndRecord) : Except Fault Located :=
  let located (shift : Nat) : Located :=
    ⟨shift, e.directoryOffset + shift, e.countHere, e.disk = e.directoryDisk⟩
  if e.count = 0 then .ok (located (e.position - e.directoryOffset))
  else if e.directoryOffset ≥ e.position then .error .lateDirectory
  else
    -- bytes in front of the container shift all its offsets
    match marksBetween d centralMark e.directoryOffset e.position with
    | first :: _ => .ok (located (first - e.directoryOffset))
    | [] => .error .noDirectory

/-- The directory of a wide end record. -/
def locateWide (d : ByteArray) (e : EndRecord) (locatorDisk offset disks : Nat) :
    Except Fault (Option Located) :=
  let locatorAt := e.position - 20
  if offset ≥ locatorAt || disks > 1 then .error .badWideRecord
  else
    let places := marksBetween d wideEndMark offset locatorAt
    let found := places.findSome? fun position =>
      (wideEndRecordAt? d position).filter (·.fits locatorDisk locatorAt)
    match found with
    | none =>
      -- none fits: the failure is that of the last place tried
      if places.getLast?.any (· + 56 > d.size) then .error .cutEndRecord else .error .badWideRecord
    | some w =>
      let shift := w.position - offset
      if w.countHere > w.count || w.needed > w.madeBy || w.directoryOffset + shift ≥ UInt64.size then
        .ok none
      else .ok (some ⟨shift, w.directoryOffset + shift, w.count, w.disk = w.directoryDisk⟩)

/-- The directory an end record points to; nothing when its numbers contradict each other. -/
def locate (d : ByteArray) (e : EndRecord) : Except Fault (Option Located) :=
  -- the wide record is looked for only where a number of the narrow one is full
  let locator := if e.count = full16 || e.directoryOffset = full32 then locatorBefore? d e.position else none
  match locator with
  | none => (locateNarrow d e).map some
  | some (disk, offset, disks) => locateWide d e disk offset disks

/-! ## (3) Central headers -/

/-- What is used of a central header. -/
structure Header where
  /-- The name as text. -/
  name : String
  /-- The name as it is written. -/
  rawName : ByteArray
  /-- The comment, as the bytes of its text. -/
  comment : ByteArray
  /-- Whether a password is needed. -/
  encrypted : Bool
  /-- The number of the packing method. -/
  method : Nat
  /-- Whether an extra field announces strong encryption. -/
  strong : Bool
  /-- Recorded time in seconds since 1970, zero for a time that does not exist. -/
  timestamp : Int
  /-- Check value of the unpacked bytes. -/
  checksum : Nat
  /-- Length of the packed bytes. -/
  packedSize : Nat
  /-- Length of the unpacked bytes. -/
  size : Nat
  /-- Offset of the local header. -/
  localAt : Nat

/-- The time of packed date and time fields, which count seconds by twos; a sixtieth second is taken for
the fifty-eighth. Zero for a time that does not exist. -/
def timestampOf (date time : Nat) : Int :=
  let year := date / 512 + 1980
  let month := date / 32 % 16
  let day := date % 32
  let hour := time / 2048
  let minute := time / 32 % 64
  let second := 2 * (time % 32)
  if Calendar.isValidDate year month day && hour ≤ 23 && minute ≤ 59 && second ≤ 60 then
    Calendar.secondsOf year month day hour minute (min second 58)
  else 0

/-- What comes of an extra field. -/
inductive Extra where
  /-- The next field begins at that offset. -/
  | next (h : Header) (offset : Nat)
  /-- The fields end in the middle of this one. -/
  | cut (h : Header)
  /-- The field is not allowed. -/
  | refused

/-- A number that a wide field replaces: read when the field gives all three numbers or the header's
own one does not fit. -/
def wideNumber (x : ByteArray) (all : Bool) (old offset : Nat) : Option (Nat × Nat) :=
  if all || old = full32 then (Bytes.little? x offset 8).map fun n => (n, offset + 8)
  else some (old, offset)

/-- The field of wide numbers: size, packed size and offset of the local header, in this order. -/
def wideField (h : Header) (x : ByteArray) (offset length : Nat) : Extra :=
  let all := length ≥ 24
  match wideNumber x all h.size offset with
  | none => .cut h
  | some (size, p₁) =>
    let h := { h with size }
    match wideNumber x all h.packedSize p₁ with
    | none => .cut h
    | some (packedSize, p₂) =>
      let h := { h with packedSize }
      match wideNumber x all h.localAt p₂ with
      | none => .cut h
      | some (localAt, p₃) =>
        let h := { h with localAt }
        -- more numbers were needed than the field has room for
        if p₃ - offset > length then .refused
        else if offset + length > x.size then .cut h
        else .next h (offset + length)

/-- The field of strong encryption: it names the true packing method. -/
def strongField (h : Header) (x : ByteArray) (offset length : Nat) : Extra :=
  if length ≠ 7 then .refused
  else
    match Bytes.little? x offset 2, Bytes.little? x (offset + 2) 2, Bytes.little? x (offset + 4) 1,
      Bytes.little? x (offset + 5) 2 with
    | some version, some vendor, some strength, some method =>
      if vendor = 0x4541 && (version = 1 || version = 2) && 1 ≤ strength && strength ≤ 3 then
        .next { h with strong := true, method } (offset + 7)
      else .refused
    | _, _, _, _ => .cut h

/-- How many of the lowest eight bits are set. -/
def bitCount (n : Nat) : Nat := (List.range 8).countP n.testBit

/-- The field of extended times: its flags tell which times are there. No time is used. -/
def timesField (h : Header) (x : ByteArray) (offset length : Nat) : Extra :=
  match Bytes.little? x offset 1 with
  | none => .cut h
  | some flags =>
    -- five bytes stand for one time whatever the flags say, as central headers have it
    if length ≠ 5 ∧ length ≠ 1 + 4 * bitCount flags then .refused
    else
      let times := (if flags.testBit 0 || length = 5 then 1 else 0)
        + (if flags.testBit 1 && length > 5 then 1 else 0)
        + (if flags.testBit 2 && length > 5 then 1 else 0)
      if offset + 1 + 4 * times ≤ x.size then .next h (offset + 1 + 4 * times) else .cut h

/-- The field of fine times: thirty-two bytes of fixed form. No time is used. -/
def fineTimesField (h : Header) (x : ByteArray) (offset length : Nat) : Extra :=
  if length ≠ 32 then .refused
  else
    match Bytes.little? x (offset + 4) 2, Bytes.little? x (offset + 6) 2 with
    | some tag, some size =>
      if tag ≠ 1 || size ≠ 24 then .refused
      else if offset + 32 ≤ x.size then .next h (offset + 32) else .cut h
    | some tag, none => if tag ≠ 1 then .refused else .cut h
    | none, _ => .cut h

/-- A field that replaces text, provided the check value in it is that of the bytes replaced. -/
def textField (h : Header) (x : ByteArray) (offset length : Nat) (old : ByteArray)
    (put : ByteArray → String → Header) : Extra :=
  match Bytes.little? x offset 1, Bytes.little? x (offset + 1) 4 with
  | some _, some checksum =>
    if length < 5 then .refused
    else
      match Bytes.slice? x (offset + 5) (length - 5) with
      | none => .cut h
      | some content =>
        if checksum ≠ (Crc32.ofBytes old).toNat then .refused
        else
          match String.fromUTF8? content with
          | none => .refused
          | some text => .next (put content text) (offset + length)
  | _, _ => .cut h

/-- The field whose kind and length stand at `offset`. -/
def extraField (h : Header) (x : ByteArray) (offset : Nat) : Extra :=
  match Bytes.little? x offset 2, Bytes.little? x (offset + 2) 2 with
  | some kind, some length =>
    let at_ := offset + 4
    if kind = 0x0001 then wideField h x at_ length
    else if kind = 0x000a then fineTimesField h x at_ length
    else if kind = 0x9901 then strongField h x at_ length
    else if kind = 0x5455 then timesField h x at_ length
    else if kind = 0x6375 then
      textField h x at_ length h.comment fun content _ => { h with comment := content }
    else if kind = 0x7075 then
      textField h x at_ length h.rawName fun content text => { h with rawName := content, name := text }
    else if at_ + length ≤ x.size then .next h (at_ + length)
    else .cut h
  | _, _ => .cut h

/-- The header after the extra fields from `offset` on; every field takes four bytes at least, so `steps`
fields at most have to be read when there are `steps` bytes. A field cut off at the end is dropped. -/
def extraFields (x : ByteArray) : Nat → Header → Nat → Option Header
  | 0, h, _ => some h
  | steps + 1, h, offset =>
    if offset ≥ x.size then some h
    else
      match extraField h x offset with
      | .next h offset => extraFields x steps h offset
      | .cut h => some h
      | .refused => none

/-- The text of a name or comment: UTF-8 when flagged so, else in the old code page. -/
def textOf (utf8 : Bool) (d : ByteArray) : String := if utf8 then Utf8.lossy d else CodePage437.decode d

/-- The number of the method that only marks strong encryption. -/
def strongMethod : Nat := 99

/-- The central header at `p`, and where the next one begins. -/
def header? (d : ByteArray) (p : Nat) : Option (Header × Nat) :=
  if markAt d centralMark p then do
    let flags ← Bytes.little? d (p + 8) 2
    let method ← Bytes.little? d (p + 10) 2
    let time ← Bytes.little? d (p + 12) 2
    let date ← Bytes.little? d (p + 14) 2
    let checksum ← Bytes.little? d (p + 16) 4
    let packedSize ← Bytes.little? d (p + 20) 4
    let size ← Bytes.little? d (p + 24) 4
    let nameLength ← Bytes.little? d (p + 28) 2
    let extraLength ← Bytes.little? d (p + 30) 2
    let commentLength ← Bytes.little? d (p + 32) 2
    let localAt ← Bytes.little? d (p + 42) 4
    let rawName ← Bytes.slice? d (p + 46) nameLength
    let extra ← Bytes.slice? d (p + 46 + nameLength) extraLength
    let comment ← Bytes.slice? d (p + 46 + nameLength + extraLength) commentLength
    let utf8 := flags.testBit 11
    let given : Header := {
      name := textOf utf8 rawName, rawName, comment := (textOf utf8 comment).toUTF8,
      encrypted := flags.testBit 0, method, strong := false, timestamp := timestampOf date time,
      checksum, packedSize, size, localAt }
    let h ← extraFields extra extraLength given 0
    -- only the field of strong encryption makes that method a known one
    if h.method = strongMethod && !h.strong then none
    else some (h, p + 46 + nameLength + extraLength + commentLength)
  else none

/-- Where the bytes of a member begin: after its local header at `p`, which has a name and extra fields
of its own. -/
def dataStart? (d : ByteArray) (p : Nat) : Option Nat :=
  if markAt d localMark p && p + 30 ≤ d.size then do
    let nameLength ← Bytes.little? d (p + 26) 2
    let extraLength ← Bytes.little? d (p + 28) 2
    return p + 30 + nameLength + extraLength
  else none

/-- `count` central headers from `p` on, each with the place of its bytes. The local header has to stand
in front of the directory, and so has the beginning of the bytes. -/
def headers? (d : ByteArray) (l : Located) : Nat → Nat → Option (List (Header × Nat))
  | 0, _ => some []
  | count + 1, p => do
    let (h, next) ← header? d p
    let localAt := h.localAt + l.shift
    if localAt ≥ UInt64.size || localAt ≥ l.start then none
    else
      let dataAt ← dataStart? d localAt
      if dataAt > l.start then none
      else
        let rest ← headers? d l count next
        return (h, dataAt) :: rest

/-- The headers of a located directory. -/
def directory? (d : ByteArray) (l : Located) : Option (List (Header × Nat)) :=
  if l.oneDisk then headers? d l l.count l.start else none

/-- The first directory that can be read, of end records from the back; `fault` is what is wrong with
the end records since the last one that could be located. -/
def firstDirectory (d : ByteArray) : Option Fault → List Nat → Except Fault (List (Header × Nat))
  | fault, [] => .error (fault.getD .noEndRecord)
  | fault, position :: rest =>
    match endRecordAt d position with
    | .error e => firstDirectory d (fault.orElse fun _ => some e) rest
    | .ok e =>
      match locate d e with
      | .error e => firstDirectory d (some e) rest
      | .ok none => firstDirectory d none rest
      | .ok (some l) =>
        match directory? d l with
        | some hs => .ok hs
        | none => firstDirectory d none rest

/-! ## (4) Members -/

/-- Headers by name: a later header of the same name takes the place of the earlier one. -/
def byName (hs : List (Header × Nat)) : List (Header × Nat) :=
  hs.foldl (fun found h =>
    if found.any (·.1.name = h.1.name) then
      found.map fun f => if f.1.name = h.1.name then h else f
    else found ++ [h]) []

/-- How the bytes of a member are packed. -/
def Header.packing (h : Header) : Packing :=
  if h.encrypted || h.strong then .unsupported
  else if h.method = 0 then .stored
  else if h.method = 8 then .deflated
  else .unsupported

/-- Whether a name is that of a directory: it ends in a slash of either kind. -/
def isDirectoryName (name : String) : Bool := Text.endsWith "/" name || Text.endsWith "\\" name

/-- The member of a header whose bytes begin at `dataAt`; nothing when its name says nothing. -/
def member? (h : Header) (dataAt : Nat) : Option Member :=
  let path := ArchivePath.normalize h.name
  let checksum := UInt32.ofNat h.checksum
  if path = "" then none
  else if isDirectoryName h.name then
    some ⟨Entry.directory path h.timestamp, some checksum, .none⟩
  else
    some ⟨Entry.file path h.size h.timestamp, some checksum,
      .packed h.packing dataAt h.packedSize checksum⟩

/-- The members of a zip container. -/
def members (d : ByteArray) : Except Fault (List Member) := do
  let hs ← firstDirectory d none (marksBetween d endMark 0 d.size).reverse
  return (byName hs).filterMap fun (h, dataAt) => member? h dataAt

end Zip

end LayeredBundles
