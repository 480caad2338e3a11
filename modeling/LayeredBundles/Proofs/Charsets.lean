import LayeredBundles.Proofs.Utf8
import LayeredBundles.Storage.Charset

/-! # Charsets

The laws that tie together the parts of a charset. Characters below 128 stand for themselves, in the path and in its
text: so slashes and points are found in the bytes of a path where they are found in what spells it.

* **`LawfulCharset`** — the laws; **`Charset.utf8`** and **`Charset.bytewise`** obey them;
* **`Charset.text_spell`** — text made a path is read back;
* **`Charset.mem_of_mem_spell`**, **`Charset.mem_of_mem_text`** — where characters below 128 come from;
* **`Charset.exists_encode_eq`**, **`Charset.encode_inj`** — every path can be spelled byte by byte, in one way. -/

namespace LayeredBundles

/-- The laws of a charset. -/
class LawfulCharset [Charset] : Prop where
  /-- A character below 128 is its byte. -/
  bytes_of_lt : ∀ {c : Char}, c.toNat < 0x80 → Charset.bytes c = [UInt8.ofNat c.toNat]
  /-- A byte below 128 is found only in the character of its code. -/
  eq_of_mem_bytes : ∀ {c : Char} {a : UInt8}, a ∈ Charset.bytes c → a.toNat < 0x80 → c.toNat = a.toNat
  /-- The length of a path is that of its bytes. -/
  size_eq : ∀ path, Charset.size path = (Charset.encode path).length
  /-- The text of a path is what its bytes read. -/
  text_eq : ∀ path, Charset.text path = Utf8.lossy (Bytes.ofList (Charset.encode path))
  /-- Text is spelled by a path with its bytes. -/
  encode_spell : ∀ s, Charset.encode (Charset.spell s) = s.toUTF8.toList

namespace Charset

/-- A path that is text: it is what spells the text that it is shown as. -/
def IsText [Charset] (path : String) : Prop := spell (text path) = path

section Lawful

variable [Charset] [LawfulCharset] {c : Char} {p s t : String}

/-- The size of two texts in a row is the sum of their sizes. -/
theorem size_append (p q : String) : size (p ++ q) = size p + size q := by
  rw [LawfulCharset.size_eq, LawfulCharset.size_eq, LawfulCharset.size_eq, encode, String.toList_append,
    List.flatMap_append, List.length_append]
  rfl

/-- **Text made a path is read back.** -/
theorem text_spell (s : String) : text (spell s) = s := by
  rw [LawfulCharset.text_eq, LawfulCharset.encode_spell, Bytes.ofList_toList, Utf8.lossy_toUTF8]

/-- **Names that are spelled alike are the same text.** -/
theorem spell_inj : spell s = spell t ↔ s = t := by
  refine ⟨fun h => ?_, fun h => h ▸ rfl⟩
  rw [← text_spell s, h, text_spell]

/-- Characters below 128 are shown as they are. -/
theorem text_of_lt (h : ∀ c ∈ p.toList, c.toNat < 0x80) : text p = p := by
  have hencode : encode p = p.toUTF8.toList := by
    rw [Utf8.toList_toUTF8]
    exact List.flatMap_congr fun c hc =>
      (LawfulCharset.bytes_of_lt (h c hc)).trans (Utf8.encodeChar_of_lt (h c hc)).symm
  rw [LawfulCharset.text_eq, hencode, Bytes.ofList_toList, Utf8.lossy_toUTF8]

/-- A character below 128 is in a path exactly if its one byte is among the bytes of the path. -/
theorem mem_encode (hc : c.toNat < 0x80) : UInt8.ofNat c.toNat ∈ encode p ↔ c ∈ p.toList := by
  rw [encode, List.mem_flatMap]
  constructor
  · rintro ⟨c', hc', hmem⟩
    have hcode : (UInt8.ofNat c.toNat).toNat = c.toNat := Utf8.toNat_ofNat (by omega)
    have heq := LawfulCharset.eq_of_mem_bytes hmem (by omega)
    exact Char.toNat_inj.1 (heq.trans hcode) ▸ hc'
  · exact fun h => ⟨c, h, by rw [LawfulCharset.bytes_of_lt hc]; exact List.mem_singleton_self _⟩

/-- **A character below 128 in what spells a text** is one of the text. -/
theorem mem_of_mem_spell (hc : c.toNat < 0x80) (h : c ∈ (spell s).toList) : c ∈ s.toList := by
  have hbyte := (mem_encode hc).2 h
  rw [LawfulCharset.encode_spell, Utf8.toList_toUTF8, List.mem_flatMap] at hbyte
  obtain ⟨c', hc', hmem⟩ := hbyte
  have hcode : (UInt8.ofNat c.toNat).toNat = c.toNat := Utf8.toNat_ofNat (by omega)
  have heq := Utf8.eq_of_mem_encodeChar hmem (by omega)
  exact Char.toNat_inj.1 (heq.trans hcode) ▸ hc'

/-- **A character below 128 in the text of a path** is one of the path. -/
theorem mem_of_mem_text (hc : c.toNat < 0x80) (h : c ∈ (text p).toList) : c ∈ p.toList := by
  rw [LawfulCharset.text_eq, Utf8.lossy, String.toList_ofList, Bytes.toList_ofList] at h
  obtain ⟨a, ha, hac⟩ := Utf8.exists_of_mem_chars hc (by simp) h
  refine (mem_encode hc).1 ?_
  rwa [← hac, UInt8.ofNat_toNat]

end Lawful

/-! ## (1) Paths that are text -/

/-- Paths that are text are told as they are. -/
@[simp] theorem text_utf8 (path : String) : utf8.text path = path := rfl

/-- They are spelled as they are. -/
@[simp] theorem spell_utf8 (s : String) : utf8.spell s = s := rfl

/-- So every path is text. -/
theorem isText_utf8 (path : String) : @IsText utf8 path := rfl

/-- They are as long as their encoding in UTF-8. -/
@[simp] theorem size_utf8 (path : String) : utf8.size path = path.utf8ByteSize := rfl

/-- That encoding is what they are made of. -/
theorem encode_utf8 (path : String) : @encode utf8 path = path.toUTF8.toList := (Utf8.toList_toUTF8 path).symm

/-- Paths that are text are read back from their bytes. -/
instance lawful_utf8 : @LawfulCharset utf8 where
  bytes_of_lt := Utf8.encodeChar_of_lt
  eq_of_mem_bytes := Utf8.eq_of_mem_encodeChar
  size_eq path := by
    rw [encode_utf8]
    rw [size_utf8, Bytes.toList_eq]
    rfl
  text_eq path := by rw [encode_utf8, Bytes.ofList_toList, Utf8.lossy_toUTF8, text_utf8]
  encode_spell := encode_utf8

/-! ## (2) Paths byte by byte -/

/-- A byte is the number of its character. -/
theorem byteOf_ofNat (a : UInt8) : byteOf (Char.ofNat a.toNat) = [a] := by
  have hlt := a.toNat_lt
  have hcode : (Char.ofNat a.toNat).toNat = a.toNat := by
    rw [Char.ofNat, dif_pos (.inl (by omega))]
    rfl
  rw [byteOf, hcode, if_pos hlt, UInt8.ofNat_toNat]

/-- Whatever bytes there are, some path is made of them. -/
theorem encode_ofList_map (as : List UInt8) :
    @encode bytewise (String.ofList (as.map fun a => Char.ofNat a.toNat)) = as := by
  unfold encode
  rw [String.toList_ofList, List.flatMap_map]
  exact (List.flatMap_congr fun a _ => byteOf_ofNat a).trans (List.flatMap_singleton' as)

/-- Paths spelled byte by byte obey the laws. -/
theorem lawful_bytewise : @LawfulCharset bytewise :=
  letI := bytewise
  { bytes_of_lt := fun hc => if_pos (by omega)
    eq_of_mem_bytes := fun {c a} ha hlt => by
      change a ∈ byteOf c at ha
      unfold byteOf at ha
      split at ha
      · next hc => rw [List.mem_singleton.1 ha, Utf8.toNat_ofNat hc]
      · exact Utf8.eq_of_mem_encodeChar ha hlt
    size_eq := fun _ => rfl
    text_eq := fun _ => rfl
    encode_spell := fun s => (encode_ofList_map _).trans (Utf8.toList_toUTF8 s).symm }

/-- **Every path can be spelled byte by byte.** -/
theorem exists_encode_eq (as : List UInt8) :
    ∃ p : String, (∀ c ∈ p.toList, c.toNat < 256) ∧ @encode bytewise p = as := by
  refine ⟨_, fun c hc => ?_, encode_ofList_map as⟩
  rw [String.toList_ofList, List.mem_map] at hc
  obtain ⟨a, -, rfl⟩ := hc
  have hlt := a.toNat_lt
  rw [Char.ofNat, dif_pos (.inl (by omega))]
  exact hlt

/-- A path whose characters stand for bytes is told by its bytes. -/
theorem ofList_map_encode {p : String} (hp : ∀ c ∈ p.toList, c.toNat < 256) :
    String.ofList ((@encode bytewise p).map fun a => Char.ofNat a.toNat) = p := by
  have hbyte : ∀ c ∈ p.toList, (byteOf c).map (fun a => Char.ofNat a.toNat) = [c] := by
    intro c hc
    rw [byteOf, if_pos (hp c hc), List.map_singleton, Utf8.toNat_ofNat (hp c hc), Char.ofNat_toNat]
  change String.ofList ((p.toList.flatMap byteOf).map fun a => Char.ofNat a.toNat) = p
  rw [List.map_flatMap, List.flatMap_congr hbyte, List.flatMap_singleton', String.ofList_toList]

/-- **It is spelled in one way.** -/
theorem encode_inj {p q : String} (hp : ∀ c ∈ p.toList, c.toNat < 256) (hq : ∀ c ∈ q.toList, c.toNat < 256) :
    @encode bytewise p = @encode bytewise q ↔ p = q := by
  refine ⟨fun h => ?_, fun h => h ▸ rfl⟩
  rw [← ofList_map_encode hp, h, ofList_map_encode hq]

end Charset

end LayeredBundles
