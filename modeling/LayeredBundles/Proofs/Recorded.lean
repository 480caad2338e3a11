import LayeredBundles.Proofs.Bytes
import LayeredBundles.Proofs.Entries

/-! # The numbers recorded of a member

What a container records of a member are numbers of fixed width: its size, its time and its check value. Whatever path
the readers take through headers and extra fields, the numbers that come out fit the fields again.

* **`Member.Recorded`** — the numbers of a member fit their fields, by the format of its container;
* **`Zip.recorded_of_mem`** — through the extra fields, then all central headers and all end records;
* **`Tar.recorded_of_mem`** — through the ways to write a number;
* **`Layer.recorded_ofMedium`** — every layer that was opened has members like that. -/

namespace LayeredBundles

/-- The numbers listed of a member fit their fields, and it has a checksum exactly in a zip container. -/
structure Member.Recorded (f : Format) (m : Member) : Prop where
  /-- A size is a number of eight bytes. -/
  size_lt : m.entry.size < 256 ^ 8
  /-- A time is one of 63 bits, in either direction. -/
  lt_timestamp : -(2 ^ 63) < m.entry.timestamp
  timestamp_lt : m.entry.timestamp < 2 ^ 63
  /-- Checksums are recorded in zip containers. -/
  checksum_isSome : m.checksum.isSome = true ↔ f = .zip

/-! ## (1) Zip containers -/

namespace Zip

/-- The numbers of a central header that are listed fit their fields. -/
def Header.Fits (h : Header) : Prop := h.size < 256 ^ 8 ∧ -(2 ^ 63) < h.timestamp ∧ h.timestamp < 2 ^ 63

variable {h h' : Header} {x d : ByteArray} {offset length next : Nat}

/-- The days of the years that a date of two bytes can name. -/
theorem daysOf_bounds (year : Int) (month day : Nat) (hlow : 0 ≤ year) (hhigh : year < 2108) (hmonth : month < 16)
    (hday : day < 32) : -(2 ^ 20) ≤ Calendar.daysOf year month day ∧ Calendar.daysOf year month day < 2 ^ 20 := by
  unfold Calendar.daysOf
  simp only [Int.fdiv_eq_ediv_of_nonneg _ (show (0 : Int) ≤ 4 by decide),
    Int.fdiv_eq_ediv_of_nonneg _ (show (0 : Int) ≤ 100 by decide),
    Int.fdiv_eq_ediv_of_nonneg _ (show (0 : Int) ≤ 400 by decide)]
  split <;> omega

/-- A date of sixteen bits is far from the ends of the signed words, whatever the time of the day. -/
theorem timestampOf_bounds {date : Nat} (time : Nat) (hdate : date < 65536) :
    -(2 ^ 63) < timestampOf date time ∧ timestampOf date time < 2 ^ 63 := by
  unfold timestampOf
  dsimp only
  split
  · next h =>
    simp only [Bool.and_eq_true, decide_eq_true_eq] at h
    obtain ⟨⟨⟨hvalid, hhour⟩, hminute⟩, hsecond⟩ := h
    have hdays := daysOf_bounds ((date / 512 + 1980 : Nat) : Int) (date / 32 % 16) (date % 32) (by omega) (by omega)
      (by omega) (by omega)
    rw [Calendar.secondsOf]
    omega
  · decide

/-- What comes of an extra field has the property, if it is a header at all. -/
def Extra.Keeps (P : Header → Prop) : Extra → Prop
  | .next h _ => P h
  | .cut h => P h
  | .refused => True

/-- A wide number is at most eight bytes long. -/
theorem wideNumber_lt {all : Bool} {old n : Nat} (hold : old < 256 ^ 8)
    (hn : wideNumber x all old offset = some (n, next)) : n < 256 ^ 8 := by
  unfold wideNumber at hn
  split at hn
  · obtain ⟨k, hk, heq⟩ := Option.map_eq_some_iff.1 hn
    cases heq
    exact Bytes.little?_lt hk
  · cases hn
    exact hold

/-- The field of wide numbers may put another size in place. -/
theorem keeps_wideField (hfits : h.Fits) : (wideField h x offset length).Keeps Header.Fits := by
  unfold wideField
  dsimp only
  split
  · exact hfits
  · next size p₁ hsize =>
    have hwide : Header.Fits { h with size } := ⟨wideNumber_lt hfits.1 hsize, hfits.2⟩
    repeat' split
    all_goals first
      | exact hwide
      | exact trivial

/-- A field of text keeps what fits if every header with the text put in fits. -/
theorem keeps_textField {old : ByteArray} {put : ByteArray → String → Header} (hfits : h.Fits)
    (hput : ∀ content text, (put content text).Fits) : (textField h x offset length old put).Keeps Header.Fits := by
  unfold textField
  repeat' split
  all_goals first
    | exact hput _ _
    | exact hfits
    | exact trivial

/-- No other field changes what is listed. -/
theorem keeps_extraField (x : ByteArray) (offset : Nat) (hfits : h.Fits) :
    (extraField h x offset).Keeps Header.Fits := by
  unfold extraField
  -- One kind of field after the other is asked for; none but the wide one and the texts changes the header.
  split
  · next kind length hkind hlength =>
    dsimp only
    split
    · exact keeps_wideField hfits
    · split
      · unfold fineTimesField
        repeat' split
        all_goals first
          | exact hfits
          | exact trivial
      · split
        · unfold strongField
          repeat' split
          all_goals first
            | exact hfits
            | exact trivial
        · split
          · unfold timesField
            dsimp only
            repeat' split
            all_goals first
              | exact hfits
              | exact trivial
          · split
            · exact keeps_textField hfits fun content text => hfits
            · split
              · exact keeps_textField hfits fun content text => hfits
              · split <;> exact hfits
  · exact hfits

/-- The extra fields replace numbers by numbers of eight bytes, so the header still fits. -/
theorem fits_extraFields {steps : Nat} (hfits : h.Fits) (hread : extraFields x steps h offset = some h') :
    h'.Fits := by
  induction steps generalizing h offset with
  | zero =>
    cases hread
    exact hfits
  | succ steps ih =>
    have hkeeps := keeps_extraField x offset hfits
    unfold extraFields at hread
    split at hread
    · cases hread
      exact hfits
    · split at hread
      · next hfield =>
        rw [hfield] at hkeeps
        exact ih hkeeps hread
      · next hfield =>
        rw [hfield] at hkeeps
        cases hread
        exact hkeeps
      · cases hread

/-- A header of the directory holds numbers that fit their fields. -/
theorem fits_header? {p : Nat} (hread : header? d p = some (h, next)) : h.Fits := by
  unfold header? at hread
  split at hread
  · obtain ⟨flags, -, hread⟩ := Option.bind_eq_some_iff.1 hread
    obtain ⟨method, -, hread⟩ := Option.bind_eq_some_iff.1 hread
    obtain ⟨time, -, hread⟩ := Option.bind_eq_some_iff.1 hread
    obtain ⟨date, hdate, hread⟩ := Option.bind_eq_some_iff.1 hread
    obtain ⟨checksum, -, hread⟩ := Option.bind_eq_some_iff.1 hread
    obtain ⟨packedSize, -, hread⟩ := Option.bind_eq_some_iff.1 hread
    obtain ⟨size, hsize, hread⟩ := Option.bind_eq_some_iff.1 hread
    obtain ⟨nameLength, -, hread⟩ := Option.bind_eq_some_iff.1 hread
    obtain ⟨extraLength, -, hread⟩ := Option.bind_eq_some_iff.1 hread
    obtain ⟨commentLength, -, hread⟩ := Option.bind_eq_some_iff.1 hread
    obtain ⟨localAt, -, hread⟩ := Option.bind_eq_some_iff.1 hread
    obtain ⟨rawName, -, hread⟩ := Option.bind_eq_some_iff.1 hread
    obtain ⟨extra, -, hread⟩ := Option.bind_eq_some_iff.1 hread
    obtain ⟨comment, -, hread⟩ := Option.bind_eq_some_iff.1 hread
    obtain ⟨given, hgiven, hread⟩ := Option.bind_eq_some_iff.1 hread
    have hbounds := timestampOf_bounds time (Bytes.little?_lt hdate)
    have hlt : size < 256 ^ 8 := Nat.lt_of_lt_of_le (Bytes.little?_lt hsize) (by decide)
    have hfits := fits_extraFields (h := _) ⟨hlt, hbounds⟩ hgiven
    split at hread
    · cases hread
    · cases hread
      exact hfits
  · cases hread

/-- All headers of a directory fit. -/
theorem fits_headers? {l : Located} {count p : Nat} {hs : List (Header × Nat)}
    (hread : headers? d l count p = some hs) : ∀ h ∈ hs, h.1.Fits := by
  induction count generalizing p hs with
  | zero =>
    cases hread
    exact fun h hh => absurd hh List.not_mem_nil
  | succ count ih =>
    unfold headers? at hread
    simp only [bind, Option.bind_eq_some_iff] at hread
    obtain ⟨⟨header, next⟩, hheader, hread⟩ := hread
    dsimp only at hread
    split at hread
    · cases hread
    · simp only [Option.bind_eq_some_iff] at hread
      obtain ⟨dataAt, -, hread⟩ := hread
      split at hread
      · cases hread
      · simp only [Option.bind_eq_some_iff] at hread
        obtain ⟨rest, hrest, hread⟩ := hread
        cases hread
        intro h hh
        obtain rfl | hh := List.mem_cons.1 hh
        · exact fits_header? hheader
        · exact ih hrest h hh

/-- Whichever directory is taken for the right one, its headers fit. -/
theorem fits_firstDirectory {fault : Option Fault} {positions : List Nat} {hs : List (Header × Nat)}
    (hread : firstDirectory d fault positions = .ok hs) : ∀ h ∈ hs, h.1.Fits := by
  induction positions generalizing fault with
  | nil => cases hread
  | cons position rest ih =>
    unfold firstDirectory at hread
    split at hread
    · exact ih hread
    · split at hread
      · exact ih hread
      · exact ih hread
      · split at hread
        · next hdirectory =>
          cases hread
          unfold directory? at hdirectory
          split at hdirectory
          · exact fits_headers? hdirectory
          · cases hdirectory
        · exact ih hread

/-- Keeping one header for each name adds none. -/
theorem mem_of_mem_byName {hs : List (Header × Nat)} {h : Header × Nat} (hmem : h ∈ byName hs) : h ∈ hs := by
  have hall : ∀ f ∈ byName hs, f ∈ hs := by
    refine List.foldlRecOn (motive := fun found => ∀ f ∈ found, f ∈ hs) hs _
      (fun f hf => absurd hf List.not_mem_nil) ?_
    intro found hfound g hg f hf
    split at hf
    · obtain ⟨f', hf', rfl⟩ := List.mem_map.1 hf
      split
      · exact hg
      · exact hfound f' hf'
    · obtain hf | hf := List.mem_append.1 hf
      · exact hfound f hf
      · exact List.mem_singleton.1 hf ▸ hg
  exact hall h hmem

/-- **Every member of a zip file** has the span and the numbers that its header records. -/
theorem recorded_of_mem {ms : List Member} {m : Member} (hread : members d = .ok ms) (hm : m ∈ ms) :
    m.Recorded .zip := by
  obtain ⟨hs, header, dataAt, hhs, hmem, hmember⟩ := exists_of_mem_members hread hm
  obtain ⟨hsize, htime⟩ := fits_firstDirectory hhs _ (mem_of_mem_byName hmem)
  unfold member? at hmember
  dsimp only at hmember
  split at hmember
  · cases hmember
  · split at hmember
    · cases hmember
      exact ⟨Nat.pow_pos (by decide), htime.1, htime.2, by simp⟩
    · cases hmember
      exact ⟨hsize, htime.1, htime.2, by simp⟩

end Zip

/-! ## (2) Tar containers -/

namespace Tar

/-- A number written in digits that is accepted fits a word. -/
theorem digits?_lt {base n : Nat} {cs : List Char} (h : digits? base cs = some n) : n < 256 ^ 8 := by
  unfold digits? at h
  simp only [Option.ite_none_right_eq_some, Option.some.injEq] at h
  obtain ⟨-, hlt, rfl⟩ := h
  exact hlt

/-- A number of a tar header, in digits or in bytes, fits a word. -/
theorem number?_lt {bs : List UInt8} {n : Nat} (h : number? bs = some n) : n < 256 ^ 8 := by
  unfold number? at h
  split at h
  · cases h
    have hlt := Bytes.littleOf_lt (bs.drop (bs.length - 8)).reverse
    rw [← Bytes.bigOf_reverse, List.reverse_reverse, List.length_reverse, List.length_drop] at hlt
    exact Nat.lt_of_lt_of_le hlt (Nat.pow_le_pow_right (by decide) (by omega))
  · obtain ⟨s, -, h⟩ := Option.bind_eq_some_iff.1 h
    exact digits?_lt h

/-- The size that an extension gives fits a word. -/
theorem extensionSize?_lt {bs : List UInt8} {n : Nat} (h : extensionSize? bs = some n) : n < 256 ^ 8 := by
  have hgo : ∀ lines : List (Option (List UInt8 × List UInt8)), extensionSize?.go lines = some n → n < 256 ^ 8 := by
    intro lines
    induction lines with
    | nil => exact fun h => by cases h
    | cons line rest ih =>
      intro h
      cases line with
      | none => cases h
      | some kv =>
        obtain ⟨key, value⟩ := kv
        unfold extensionSize?.go at h
        split at h
        · obtain ⟨s, -, h⟩ := Option.bind_eq_some_iff.1 h
          exact digits?_lt h
        · exact ih h
  exact hgo _ h

/-- The size of a member, wherever it is recorded, fits a word. -/
theorem sizeOf_lt {block : ByteArray} {p : Pending} {size : Nat} (h : sizeOf block p = .ok size) : size < 256 ^ 8 := by
  unfold sizeOf at h
  split at h
  · cases h
  · next n hn =>
    cases h
    cases hsize : p.extensions.bind extensionSize? with
    | none => exact number?_lt hn
    | some k =>
      obtain ⟨bs, -, hk⟩ := Option.bind_eq_some_iff.1 hsize
      exact extensionSize?_lt hk

/-- **Every member of a tar file** has the span and the numbers that its header records. -/
theorem recorded_of_mem {d : ByteArray} {ms : List Member} {m : Member} (hread : members d = .ok ms) (hm : m ∈ ms) :
    m.Recorded .tar := by
  obtain ⟨block, p, size, dataAt, hsize, hmember, -⟩ := exists_of_mem_membersFrom hread hm
  unfold member? at hmember
  dsimp only at hmember
  generalize ArchivePath.normalize (Utf8.lossy (Bytes.ofList (pathOf block p))) = path at hmember
  split at hmember
  · cases hmember
  · obtain ⟨timestamp, htime, hmember⟩ := exists_of_bind_eq_ok hmember
    have hbounds : -(2 ^ 63) < timestamp ∧ timestamp < 2 ^ 63 := by
      unfold timestampOf at htime
      split at htime
      · next n hn =>
        cases htime
        have hnonneg : (0 : Int) ≤ n := Int.natCast_nonneg n
        constructor <;> omega
      · cases htime
    split at hmember <;> cases hmember
    · exact ⟨Nat.pow_pos (by decide), hbounds.1, hbounds.2, by simp⟩
    all_goals exact ⟨sizeOf_lt hsize, hbounds.1, hbounds.2, by simp⟩

end Tar

/-- **The numbers of every layer that was opened fit their fields.** -/
theorem Layer.recorded_ofMedium {l : Layer} {name : String} {s : Medium} (h : Layer.ofMedium name s = .ok l) :
    ∀ m ∈ l.members, m.Recorded l.format := by
  intro m hm
  obtain ⟨hformat, hzip⟩ | ⟨hformat, htar⟩ := members_of_ofMedium h
  · exact hformat ▸ Zip.recorded_of_mem hzip hm
  · exact hformat ▸ Tar.recorded_of_mem htar hm

end LayeredBundles
