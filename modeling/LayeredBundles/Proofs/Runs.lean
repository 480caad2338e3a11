import LayeredBundles.Proofs.Bytes
import LayeredBundles.Proofs.Readers

/-! # Runs of bytes

The file of a tar container is a run of the container's bytes. It is copied in reads of limited length, each of which
may yield less than was asked for, until all of it is there or the container ends. Whatever the reads yield, what is
handed on is the run, or as much of it as the container has and an error that tells how much that was.

* **`Medium.fetch_eq`**, **`Medium.size_le_of_fetch`** — what one read yields, and what it means that it yields nothing;
* **`Layer.copyRun_whole`**, **`copyRun_cut`** — the rest of a run, when the container goes on behind it and when it
  ends before;
* **`Tar.exists_span`** — a recorded run begins within the container;
* **`Layer.ReadsBack`** — a run is read back exactly, or reported as cut off;
* **`Layer.recorded_read_back`** — so is every recorded run. -/

namespace LayeredBundles

/-! ## (1) One read -/

namespace Medium

variable {s : Medium} {offset count : Nat}

/-- A read yields bytes as they stand. -/
theorem fetch_eq (s : Medium) (offset count : Nat) :
    s.fetch offset count = s.bytes.extract offset (offset + (s.fetch offset count).size) := by
  rw [size_fetch, fetch, ← Bytes.toList_inj, Bytes.toList_extract, Bytes.toList_extract]
  by_cases hgrant : s.grant offset count ≤ s.size - offset
  · rw [Nat.min_eq_left hgrant]
  · rw [Nat.min_eq_right (by omega), List.drop_take, List.drop_take, Nat.add_sub_cancel_left, Nat.add_sub_cancel_left,
      List.take_of_length_le, List.take_of_length_le] <;> rw [List.length_drop, Bytes.length_toList]
    · exact Nat.le_refl _
    · exact Nat.le_of_not_le hgrant

/-- A read that yields nothing, though something was asked for, is at the end or past it. -/
theorem size_le_of_fetch (hcount : 0 < count) (h : (s.fetch offset count).size = 0) : s.size ≤ offset := by
  by_contra hin
  have hgrant := s.grant_pos offset count (Nat.lt_of_not_le hin) hcount
  rw [size_fetch] at h
  omega

/-- A run that the medium has is as long as was asked for. -/
theorem size_extract_of_le (s : Medium) {length : Nat} (h : offset + length ≤ s.size) :
    (s.bytes.extract offset (offset + length)).size = length := by
  rw [ByteArray.size_extract]
  unfold size at h
  omega

/-- No read goes past the end. -/
theorem size_fetch_le_rest (s : Medium) (offset count : Nat) : (s.fetch offset count).size ≤ s.size - offset := by
  rw [size_fetch]
  exact Nat.min_le_right _ _

end Medium

/-! ## (2) The reads of a run -/

namespace Layer

variable {s : Medium} {offset length limit done : Nat} {out : ByteArray}

/-- A piece and then what stands behind it. -/
theorem append_behind {d piece : ByteArray} {start stop : Nat} (hpiece : piece = d.extract start (start + piece.size))
    (hstop : start + piece.size ≤ stop) : piece ++ d.extract (start + piece.size) stop = d.extract start stop := by
  calc piece ++ d.extract (start + piece.size) stop
      = d.extract start (start + piece.size) ++ d.extract (start + piece.size) stop := by rw [← hpiece]
    _ = d.extract start stop := by
      rw [ByteArray.extract_append_extract, Nat.min_eq_left (Nat.le_add_right _ _), Nat.max_eq_right hstop]

/-- **The rest of a run behind which the container goes on** is handed on as it stands. -/
theorem copyRun_whole (hlimit : 0 < limit) (hdone : done ≤ length) (hend : offset + length ≤ s.size) :
    copyRun s offset length limit out done = (out ++ s.bytes.extract (offset + done) (offset + length), none) := by
  fun_induction copyRun s offset length limit out done with
  | case1 out done hless piece hempty =>
    have hpast : s.size ≤ offset + done := Medium.size_le_of_fetch (by omega) hempty
    omega
  | case2 out done hless piece hsome ih =>
    have hstands : piece = s.bytes.extract (offset + done) (offset + done + piece.size) := s.fetch_eq ..
    have hsize : piece.size ≤ min limit (length - done) := s.size_fetch_le ..
    rw [ih (by omega), ByteArray.append_assoc, ← Nat.add_assoc, append_behind hstands (by omega)]
  | case3 out done hless =>
    obtain rfl : done = length := by omega
    rw [ByteArray.extract_eq_empty_iff.2 (by omega), ByteArray.append_empty]

/-- **The rest of a run within which the container ends** is handed on up to there, with the number of bytes. -/
theorem copyRun_cut (hlimit : 0 < limit) (hdone : done < length) (hend : s.size < offset + length)
    (hread : done ≤ s.size - offset) : copyRun s offset length limit out done =
      (out ++ s.bytes.extract (offset + done) s.size, some (s.size - offset)) := by
  fun_induction copyRun s offset length limit out done with
  | case1 out done hless piece hempty =>
    have hpast : s.size ≤ offset + done := Medium.size_le_of_fetch (by omega) hempty
    obtain rfl : done = s.size - offset := by omega
    rw [ByteArray.extract_eq_empty_iff.2 (by omega), ByteArray.append_empty]
  | case2 out done hless piece hsome ih =>
    have hstands : piece = s.bytes.extract (offset + done) (offset + done + piece.size) := s.fetch_eq ..
    have hsize : piece.size ≤ s.size - (offset + done) := s.size_fetch_le_rest ..
    rw [ih (by omega) (by omega), ByteArray.append_assoc, ← Nat.add_assoc, append_behind hstands (by omega)]
  | case3 out done hless => omega

/-- A span that lies within the source is copied as a whole. -/
theorem copySpan_whole (path : String) (h : offset + length ≤ s.size) :
    copySpan s path offset length = (s.bytes.extract offset (offset + length), none) := by
  rw [copySpan, copyRun_whole (by omega) (Nat.zero_le length) h, ByteArray.empty_append]
  rfl

/-- One that goes beyond its end is copied up to there, and is told to be cut. -/
theorem copySpan_cut (path : String) (hlength : 0 < length) (h : s.size < offset + length) :
    copySpan s path offset length =
      (s.bytes.extract offset s.size, some (.cut path (s.size - offset) length)) := by
  rw [copySpan, copyRun_cut (by omega) hlength h (Nat.zero_le _), ByteArray.empty_append]
  rfl

/-- A run that is read to its end has the length that was asked for. -/
theorem size_copySpan {path : String} {c : ByteArray} (h : copySpan s path offset length = (c, none)) :
    c.size = length := by
  rcases Nat.eq_zero_or_pos length with rfl | hlength
  · rw [copySpan, copyRun, if_neg (Nat.lt_irrefl 0)] at h
    cases h
    rfl
  · by_cases hend : offset + length ≤ s.size
    · rw [copySpan_whole path hend] at h
      cases h
      exact s.size_extract_of_le hend
    · rw [copySpan_cut path hlength (Nat.lt_of_not_le hend)] at h
      cases h

end Layer

/-! ## (3) Recorded runs -/

namespace Tar

variable {m : Member}

/-- A member stands below the root, and if it is a file it is the run of bytes that its entry tells the size of. -/
theorem of_member? {block : ByteArray} {p : Pending} {size dataAt : Nat}
    (hm : member? block p size dataAt = .ok (some m)) :
    m.entry.path ≠ "" ∧ (m.entry.isDir = false → m.body = .span dataAt m.entry.size) := by
  unfold member? at hm
  dsimp only at hm
  generalize ArchivePath.normalize (Utf8.lossy (Bytes.ofList (pathOf block p))) = path at hm
  split at hm
  · cases hm
  · next hpath =>
    obtain ⟨timestamp, -, hm⟩ := exists_of_bind_eq_ok hm
    split at hm <;> cases hm
    · exact ⟨hpath, fun hfile => nomatch hfile⟩
    all_goals exact ⟨hpath, fun _ => rfl⟩

/-- **A recorded run begins within the container**: its header stands in front of it. -/
theorem exists_span {d : ByteArray} {ms : List Member} (h : members d = .ok ms) (hm : m ∈ ms)
    (hfile : m.entry.isDir = false) :
    m.entry.path ≠ "" ∧ ∃ offset, m.body = .span offset m.entry.size ∧ offset ≤ d.size := by
  obtain ⟨block, p, size, dataAt, -, hmember, hin⟩ := exists_of_mem_membersFrom h hm
  obtain ⟨hpath, hbody⟩ := of_member? hmember
  exact ⟨hpath, dataAt, hbody hfile, hin⟩

end Tar

namespace Layer

variable {l : Layer} {path : String} {offset length : Nat}

/-- `l.ReadsBack path offset length`: copying the run as the file at `path` either hands it on as it stands, or reports
that it is cut off. -/
structure ReadsBack (l : Layer) (path : String) (offset length : Nat) : Prop where
  /-- If the container has all of the run, that is handed on. -/
  whole : offset + length ≤ l.medium.size →
    l.copyBody path (.span offset length) = (l.medium.bytes.extract offset (offset + length), .ok length)
  /-- If it ends before, what it has of the run is handed on, and the error tells how many bytes these are. -/
  cut : l.medium.size < offset + length → ∃ damage,
    l.copyBody path (.span offset length)
      = (l.medium.bytes.extract offset l.medium.size, .error (.corrupt l.name damage)) ∧
    damage.message = path ++ ": truncated after " ++ toString (l.medium.bytes.extract offset l.medium.size).size
      ++ " of " ++ toString length ++ " bytes" ∧
    (l.medium.bytes.extract offset l.medium.size).size = l.medium.size - offset

/-- A run that begins within the container is read back, and so is one of a byte or more that begins behind it. -/
theorem readsBack (path : String) (h : offset ≤ l.medium.size ∨ 0 < length) : l.ReadsBack path offset length where
  whole hend := by
    have hsize := l.medium.size_extract_of_le hend
    rw [copyBody, copySpan_whole path hend]
    simp only [hsize]
  cut hend := by
    have hsize : (l.medium.bytes.extract offset l.medium.size).size = l.medium.size - offset := by
      rw [ByteArray.size_extract, Medium.size, Nat.min_self]
    refine ⟨.cut path (l.medium.size - offset) length, ?_, ?_, hsize⟩
    · rw [copyBody, copySpan_cut path (by omega) hend]
    · rw [hsize]
      rfl

/-- **Every recorded run is read back exactly, or reported as cut off.** Let reads of the container of a layer yield as
little as they like, though something before the end.

1. If the members of the layer are those of the container, read as tar, then the file recorded last under a path is a
   run of as many bytes as its entry says; if the container has all of them they are handed on, and if not, those that
   it has, with an error that tells their number; this is what writing out the path in any spelling comes to.
2. The same holds of any run, recorded or not, unless it has no bytes and begins behind the end of the container, as no
   recorded run does. -/
theorem recorded_read_back (l : Layer) :
    (Tar.members l.medium.bytes = .ok l.members →
      ∀ path m, l.lastFile? path = some m → ∃ offset, m.body = .span offset m.entry.size ∧
        l.ReadsBack path offset m.entry.size ∧
        ∀ path', ArchivePath.normalize path' = path → l.writeOut path' = l.copyBody path m.body) ∧
    ∀ path offset length, offset ≤ l.medium.size ∨ 0 < length → l.ReadsBack path offset length := by
  refine ⟨fun h path m hlast => ?_, fun path offset length => readsBack path⟩
  obtain ⟨before, after, hmembers, hpath, hfile, -⟩ := isLastFile_of_lastFile? hlast
  obtain ⟨hroot, offset, hbody, hin⟩ := Tar.exists_span h (m := m) (by simp [hmembers]) hfile
  refine ⟨offset, hbody, readsBack path (.inl hin), ?_⟩
  rintro path' rfl
  have hsound : l.Sound := fun m' hm' => by
    obtain ⟨block, p, size, dataAt, -, hmember, -⟩ := Tar.exists_of_mem_membersFrom h hm'
    exact Tar.sound_member? hmember
  exact (hsound.read_of_lastFile? (hpath ▸ hroot) hlast).2

end Layer

/-- The header of the file `name` of `size` bytes in a tar container, in no dialect. -/
def Tar.headerOf (name : String) (size : Nat) : List UInt8 :=
  let field (width : Nat) (s : String) : List UInt8 :=
    s.toUTF8.toList ++ List.replicate (width - s.utf8ByteSize) 0
  let number (width n : Nat) : List UInt8 := field width (String.ofList (Nat.toDigits 8 n))
  let front := field 124 name ++ number 12 size ++ number 12 1
  let back := field 101 "0" ++ field 255 "ustar"
  front ++ number 8 ((front ++ back).foldl (fun sum b => sum + b.toNat) 256) ++ back

namespace Layer

/-- A medium that ends within its one file, and that grants no more than five bytes at a time. -/
def cutShort : Medium where
  bytes := Bytes.ofList (Tar.headerOf "f" 12 ++ "abcdefgh".toUTF8.toList)
  grant _ count := min count 5
  grant_le _ count := Nat.min_le_left count 5
  grant_pos _ count _ hcount := by omega

/-- The file in it. -/
def cutShortFile : Member := ⟨Entry.file "f" 12 1, none, .span 512 12⟩

/-- The bytes of that medium: a header, and eight of the twelve bytes of the file. -/
theorem bytes_cutShort : cutShort.bytes.size = 520 ∧
    cutShort.bytes.extract 0 512 = Bytes.ofList (Tar.headerOf "f" 12) ∧
    cutShort.bytes.extract 512 520 = "abcdefgh".toUTF8 ∧ ¬ (Tar.headerOf "f" 12).all (· = 0) = true := by
  refine ⟨?_, ?_, ?_, ?_⟩
  · rw [cutShort, Bytes.size_ofList]
    decide +kernel
  · rw [cutShort, Bytes.extract_ofList]
    exact congrArg Bytes.ofList (by decide +kernel)
  · rw [cutShort, Bytes.extract_ofList, ← Bytes.toList_inj, Bytes.toList_ofList]
    decide +kernel
  · rw [Tar.headerOf]
    decide +kernel

/-- What the header of that file says. All of it is taken from the list of its bytes: as an array they would be copied
at every look. -/
theorem header_cutShort : Tar.type (Bytes.ofList (Tar.headerOf "f" 12)) = 0x30 ∧
    Tar.checksumHolds (Bytes.ofList (Tar.headerOf "f" 12)) = .ok () ∧
    Tar.sizeOf (Bytes.ofList (Tar.headerOf "f" 12)) .nothing = .ok 12 ∧
    Tar.member? (Bytes.ofList (Tar.headerOf "f" 12)) .nothing 12 512 = .ok (some cutShortFile) := by
  -- Each field of the header by itself, so that no step runs over the whole of it.
  have htype : Tar.type (Bytes.ofList (Tar.headerOf "f" 12)) = 0x30 := by
    rw [Tar.type, Bytes.byteAt_eq, Bytes.toList_ofList]
    decide +kernel
  have hsum : Tar.checksumHolds (Bytes.ofList (Tar.headerOf "f" 12)) = .ok () := by
    simp only [Tar.checksumHolds, Tar.field, Bytes.extract_ofList, Bytes.toList_ofList]
    decide +kernel
  have hlength : Tar.sizeOf (Bytes.ofList (Tar.headerOf "f" 12)) .nothing = .ok 12 := by
    simp only [Tar.sizeOf, Tar.field, Bytes.extract_ofList, Bytes.toList_ofList]
    decide +kernel
  have hdialect : Tar.dialect (Bytes.ofList (Tar.headerOf "f" 12)) = .old := by
    simp only [Tar.dialect, Tar.field, Bytes.extract_ofList, Bytes.toList_ofList]
    decide +kernel
  have hpath : Tar.pathOf (Bytes.ofList (Tar.headerOf "f" 12)) .nothing = [0x66] := by
    show Tar.headerPath _ = _
    simp only [Tar.headerPath, hdialect, Tar.field, Bytes.extract_ofList, Bytes.toList_ofList]
    decide +kernel
  have htime : Tar.timestampOf (Bytes.ofList (Tar.headerOf "f" 12)) = .ok 1 := by
    simp only [Tar.timestampOf, Tar.field, Bytes.extract_ofList, Bytes.toList_ofList]
    decide +kernel
  refine ⟨htype, hsum, hlength, ?_⟩
  rw [Tar.member?, hpath, htime, htype]
  decide +kernel

/-- The header of the example tells of one file, with more bytes than the container has. -/
theorem headerStep_cutShort : Tar.headerStep cutShort.bytes .nothing 0 (Bytes.ofList (Tar.headerOf "f" 12))
    = .ok (.go (some cutShortFile) .nothing 1024) := by
  obtain ⟨htype, hsum, hlength, hmember⟩ := header_cutShort
  have hdescribe (content : List UInt8) :
      Tar.describe? (Bytes.ofList (Tar.headerOf "f" 12)) .nothing content = none := by
    rw [Tar.describe?, htype]
    split <;> rfl
  unfold Tar.headerStep
  rw [hsum, hlength]
  dsimp only [bind, Except.bind]
  rw [if_neg (by decide), hdescribe, htype]
  dsimp only
  rw [if_neg (by decide)]
  dsimp only
  rw [Nat.zero_add, Tar.blockSize, hmember]
  dsimp only
  rw [if_neg (by decide)]
  exact congrArg (fun n => Except.ok (Tar.Step.go (some cutShortFile) .nothing n)) (by decide)

/-- That file is all there is. -/
theorem members_cutShort : Tar.members cutShort.bytes = .ok [cutShortFile] := by
  obtain ⟨hsize, hblock, -, hnonzero⟩ := bytes_cutShort
  have hstep : Tar.step cutShort.bytes .nothing 0 = .ok (.go (some cutShortFile) .nothing 1024) := by
    unfold Tar.step
    rw [if_pos (by rw [hsize]; decide)]
    dsimp only
    rw [Nat.zero_add, Tar.blockSize, hblock, Bytes.toList_ofList, if_neg hnonzero, headerStep_cutShort]
  have hend : Tar.step cutShort.bytes .nothing 1024 = .ok .stop := by
    unfold Tar.step
    rw [if_neg (by rw [hsize]; decide), if_neg (by rw [hsize]; decide)]
    rfl
  rw [Tar.members, hsize, show 520 / Tar.blockSize = 1 from rfl, Tar.membersFrom, hstep]
  dsimp only [bind, Except.bind]
  rw [Tar.membersFrom, hend]
  rfl

/-- Eight bytes of that file are handed on, and the error says so; a run that begins behind the end has none. -/
theorem cutShort_read_back : ∃ l : Layer, l.medium = cutShort ∧ Tar.members l.medium.bytes = .ok l.members ∧
    l.lastFile? "f" = some cutShortFile ∧
    (∃ damage, l.writeOut "./f" = ("abcdefgh".toUTF8, .error (.corrupt "b" damage)) ∧
      damage.message = "f: truncated after 8 of 12 bytes") ∧
    l.ReadsBack "g" 600 4 := by
  let l : Layer := ⟨"b", .tar, cutShort, [cutShortFile], Catalog.ofList [cutShortFile.entry], rfl⟩
  have hlast : l.lastFile? "f" = some cutShortFile := by decide
  have hnormal : ArchivePath.normalize "./f" = "f" := by decide
  obtain ⟨hsize, -, hbytes, -⟩ := bytes_cutShort
  obtain ⟨hrecorded, hruns⟩ := recorded_read_back l
  obtain ⟨offset, hbody, hback, hspelled⟩ := hrecorded members_cutShort "f" cutShortFile hlast
  cases hbody
  have hend : cutShort.size < 512 + 12 := by
    rw [Medium.size, hsize]
    decide
  obtain ⟨damage, hcopy, hmessage, -⟩ := hback.cut hend
  rw [show l.medium = cutShort from rfl, Medium.size, hsize, hbytes] at hcopy hmessage
  refine ⟨l, rfl, members_cutShort, hlast, ⟨damage, (hspelled "./f" hnormal).trans hcopy, hmessage.trans ?_⟩,
    hruns "g" 600 4 (.inr (by decide))⟩
  decide

end Layer

end LayeredBundles
