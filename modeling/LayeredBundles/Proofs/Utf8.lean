import LayeredBundles.Text.Utf8
import LayeredBundles.Proofs.Bytes

/-! # Text in UTF-8 and back

The lenient reader loses nothing of bytes that are text: it reads each character back from its one to four bytes. By
cases on the number of these bytes, then by induction on the characters.

* **`Utf8.toList_toUTF8`** — the bytes of a text, character by character;
* **`Utf8.zero_notMem`** — without the character of code zero there is no zero byte;
* **`Utf8.lossy_toUTF8`** — text is read back;
* **`Utf8.exists_of_mem_chars`** — a character below 128 is read from its byte only; so bytes without zero give text
  without the character of code zero. -/

namespace LayeredBundles

namespace Utf8

variable {b n left low high code : Nat} {bs : List UInt8} {c : Char} {s : String}

/-- The bytes of a text are those of its characters. -/
theorem toList_toUTF8 (s : String) : s.toUTF8.toList = s.toList.flatMap String.utf8EncodeChar := by
  rw [String.toUTF8_eq_toByteArray, ← String.utf8Encode_toList, List.utf8Encode, Bytes.toList_eq, List.data_toByteArray]

/-- A byte that may continue the character at hand, the last one of it or not. -/
theorem next_some (hlow : low ≤ b) (hhigh : b ≤ high) : next b (some ⟨left, low, high, code⟩) =
    if left ≤ 1 then ([Char.ofNat (64 * code + (b - 0x80))], none)
    else ([], some ⟨left - 1, 0x80, 0xBF, 64 * code + (b - 0x80)⟩) :=
  if_pos ⟨hlow, hhigh⟩

/-- Bytes are decoded one after the other. -/
theorem chars_cons (p : Option Pending) (b : UInt8) (bs : List UInt8) :
    chars p (b :: bs) = (next b.toNat p).1 ++ chars (next b.toNat p).2 bs := by
  cases p <;> rfl

/-- A small number is that of its byte. -/
theorem toNat_ofNat (h : n < 256) : (UInt8.ofNat n).toNat = n := by
  rw [UInt8.toNat_ofNat', Nat.mod_eq_of_lt h]

/-! ## (1) One character -/

/-- A first byte of two. -/
theorem first_of_two (h : 0xC2 ≤ b) (h' : b < 0xE0) : first b = ([], some ⟨1, 0x80, 0xBF, b - 0xC0⟩) := by
  rw [first, if_neg (by omega), if_neg (by omega), if_pos h']

/-- A first byte of three, with the bounds that keep out long forms and surrogates. -/
theorem first_of_three (h : 0xE0 ≤ b) (h' : b < 0xF0) : first b =
    ([], some ⟨2, if b = 0xE0 then 0xA0 else 0x80, if b = 0xED then 0x9F else 0xBF, b - 0xE0⟩) := by
  rw [first, if_neg (by omega), if_neg (by omega), if_neg (by omega), if_pos h']

/-- A first byte of four, with the bounds that keep out long forms and numbers that are too great. -/
theorem first_of_four (h : 0xF0 ≤ b) (h' : b < 0xF5) : first b =
    ([], some ⟨3, if b = 0xF0 then 0x90 else 0x80, if b = 0xF4 then 0x8F else 0xBF, b - 0xF0⟩) := by
  rw [first, if_neg (by omega), if_neg (by omega), if_neg (by omega), if_neg (by omega), if_pos h']

/-- A byte that continues the character at hand, but does not end it. -/
theorem chars_more (hn : n < 256) (hlow : low ≤ n) (hhigh : n ≤ high) (hleft : 1 < left) :
    chars (some ⟨left, low, high, code⟩) (UInt8.ofNat n :: bs) =
      chars (some ⟨left - 1, 0x80, 0xBF, 64 * code + (n - 0x80)⟩) bs := by
  rw [chars_cons, toNat_ofNat hn, next_some hlow hhigh, if_neg (Nat.not_le.2 hleft), List.nil_append]

/-- A byte that ends the character at hand. -/
theorem chars_last (hn : n < 256) (hlow : low ≤ n) (hhigh : n ≤ high) (hleft : left ≤ 1) :
    chars (some ⟨left, low, high, code⟩) (UInt8.ofNat n :: bs) =
      Char.ofNat (64 * code + (n - 0x80)) :: chars none bs := by
  rw [chars_cons, toNat_ofNat hn, next_some hlow hhigh, if_pos hleft, List.singleton_append]

/-- A character is read back from its bytes, whatever follows them. -/
theorem chars_encodeChar (c : Char) (rest : List UInt8) :
    chars none (String.utf8EncodeChar c ++ rest) = c :: chars none rest := by
  have hvalid : c.val.toNat < 0xD800 ∨ 0xDFFF < c.val.toNat ∧ c.val.toNat < 0x110000 := c.valid
  have hback : Char.ofNat c.val.toNat = c := Char.ofNat_toNat c
  unfold String.utf8EncodeChar
  dsimp only
  generalize c.val.toNat = n at hvalid hback ⊢
  split
  · -- one byte
    rw [List.singleton_append, chars_cons, toNat_ofNat (by omega), next, first, if_pos (by omega), hback,
      List.singleton_append]
  · split
    · -- two bytes
      rw [List.cons_append, chars_cons, toNat_ofNat (by omega), next, first_of_two (by omega) (by omega),
        List.nil_append, List.singleton_append, chars_last (by omega) (by omega) (by omega) (by decide)]
      rw [show 64 * (n / 64 % 32 + 192 - 192) + (n % 64 + 128 - 128) = n by omega, hback]
    · split
      · -- three bytes
        have hlow : (if n / 4096 % 16 + 224 = 0xE0 then 0xA0 else 0x80) ≤ n / 64 % 64 + 128 := by
          split <;> omega
        have hhigh : n / 64 % 64 + 128 ≤ if n / 4096 % 16 + 224 = 0xED then 0x9F else 0xBF := by
          split <;> omega
        rw [List.cons_append, chars_cons, toNat_ofNat (by omega), next, first_of_three (by omega) (by omega),
          List.nil_append, List.cons_append, chars_more (by omega) hlow hhigh (by decide), List.singleton_append,
          chars_last (by omega) (by omega) (by omega) (by decide)]
        rw [show 64 * (64 * (n / 4096 % 16 + 224 - 224) + (n / 64 % 64 + 128 - 128)) + (n % 64 + 128 - 128) = n by
          omega, hback]
      · -- four bytes
        have hlow : (if n / 262144 % 8 + 240 = 0xF0 then 0x90 else 0x80) ≤ n / 4096 % 64 + 128 := by
          split <;> omega
        have hhigh : n / 4096 % 64 + 128 ≤ if n / 262144 % 8 + 240 = 0xF4 then 0x8F else 0xBF := by
          split <;> omega
        rw [List.cons_append, chars_cons, toNat_ofNat (by omega), next, first_of_four (by omega) (by omega),
          List.nil_append, List.cons_append, chars_more (by omega) hlow hhigh (by decide), List.cons_append,
          chars_more (by omega) (by omega) (by omega) (by decide), List.singleton_append,
          chars_last (by omega) (by omega) (by omega) (by decide)]
        rw [show 64 * (64 * (64 * (n / 262144 % 8 + 240 - 240) + (n / 4096 % 64 + 128 - 128)) +
          (n / 64 % 64 + 128 - 128)) + (n % 64 + 128 - 128) = n by omega, hback]

/-- Text is read back from its bytes, whatever follows them. -/
theorem chars_toUTF8 (s : String) (rest : List UInt8) :
    chars none (s.toUTF8.toList ++ rest) = s.toList ++ chars none rest := by
  rw [toList_toUTF8]
  induction s.toList with
  | nil => rfl
  | cons c cs ih => rw [List.flatMap_cons, List.append_assoc, chars_encodeChar, ih, List.cons_append]

/-- **Text is read back.** -/
theorem lossy_toUTF8 (s : String) : lossy s.toUTF8 = s := by
  have h := chars_toUTF8 s []
  rw [List.append_nil] at h
  rw [lossy, h, chars, List.append_nil, String.ofList_toList]

/-- Texts with the same bytes are the same. -/
theorem toUTF8_inj {s t : String} : s.toUTF8.toList = t.toUTF8.toList ↔ s = t := by
  rw [Bytes.toList_inj, String.toUTF8_eq_toByteArray, String.toUTF8_eq_toByteArray, String.toByteArray_inj]

/-- A byte below 128 is found only in the character of its code. -/
theorem eq_of_mem_encodeChar {a : UInt8} (ha : a ∈ String.utf8EncodeChar c) (hlt : a.toNat < 0x80) :
    c.toNat = a.toNat := by
  have hvalid : c.val.toNat < 0xD800 ∨ 0xDFFF < c.val.toNat ∧ c.val.toNat < 0x110000 := c.valid
  change c.val.toNat = a.toNat
  unfold String.utf8EncodeChar at ha
  dsimp only at ha
  generalize c.val.toNat = n at hvalid ha ⊢
  -- Of a longer character all bytes are 128 at least.
  have hmany : ∀ m, 0x80 ≤ m → m < 256 → a ≠ UInt8.ofNat m := by
    rintro m hm hm' rfl
    rw [toNat_ofNat hm'] at hlt
    omega
  split at ha
  · rw [List.mem_singleton.1 ha, toNat_ofNat (by omega)]
  · exfalso
    repeat' split at ha
    all_goals
      simp only [List.mem_cons, List.not_mem_nil, or_false] at ha
    · rcases ha with ha | ha <;> exact hmany _ (by omega) (by omega) ha
    · rcases ha with ha | ha | ha <;> exact hmany _ (by omega) (by omega) ha
    · rcases ha with ha | ha | ha | ha <;> exact hmany _ (by omega) (by omega) ha

/-- A character below 128 is its byte. -/
theorem encodeChar_of_lt (hc : c.toNat < 0x80) : String.utf8EncodeChar c = [UInt8.ofNat c.toNat] := by
  change c.val.toNat < 0x80 at hc
  unfold String.utf8EncodeChar
  exact if_pos (by omega)

/-- A text without the character of code zero has no zero byte. -/
theorem zero_notMem (h : '\x00' ∉ s.toList) : 0 ∉ s.toUTF8.toList := by
  rw [toList_toUTF8, List.mem_flatMap]
  rintro ⟨c, hc, hzero⟩
  have heq : c.toNat = '\x00'.toNat := eq_of_mem_encodeChar hzero (by decide)
  exact h (Char.toNat_inj.1 heq ▸ hc)

/-! ## (2) Characters below 128 -/

/-- `Proper left code`: whatever the last `left` bytes of a character are, with the bits read so far they make one of
code 128 at least. -/
def Proper : Nat → Nat → Prop
  | 0, code => 0x80 ≤ code ∧ (code < 0xD800 ∨ 0xDFFF < code ∧ code < 0x110000)
  | left + 1, code => ∀ b, 0x80 ≤ b → b ≤ 0xBF → Proper left (64 * code + (b - 0x80))

/-- What is pending can only become a character of code 128 at least. -/
def Pending.Proper (p : Pending) : Prop :=
  ∃ left, p.left = left + 1 ∧ ∀ b, p.low ≤ b → b ≤ p.high → Utf8.Proper left (64 * p.code + (b - 0x80))

/-- A number that is decoded of several bytes is no character below 128. -/
theorem ofNat_ne (h : Proper 0 code) (hc : c.toNat < 0x80) : c ≠ Char.ofNat code := by
  rintro rfl
  have hcode : (Char.ofNat code).toNat = code := by
    rw [Char.ofNat, dif_pos h.2]
    rfl
  exact absurd hc (by have := h.1; omega)

/-- Nor is the replacement character one. -/
theorem ne_replacement (hc : c.toNat < 0x80) : c ≠ replacement := by
  rintro rfl
  exact absurd hc (by decide)

/-- Only its own byte completes a character below 128 as the first one, and nothing is left pending that becomes one. -/
theorem proper_first (hc : c.toNat < 0x80) (hb : b ≠ c.toNat) : c ∉ (first b).1 ∧ ∀ p ∈ (first b).2, p.Proper := by
  have hreplacement : c ∉ [replacement] ∧ ∀ p ∈ (none : Option Pending), p.Proper :=
    ⟨fun hmem => ne_replacement hc (List.mem_singleton.1 hmem), fun p hp => nomatch hp⟩
  unfold first
  split
  · -- A byte below 128 is its own character, and that is another one.
    next hlt =>
    refine ⟨fun hmem => hb ?_, fun p hp => nomatch hp⟩
    rw [List.mem_singleton.1 hmem, Char.ofNat, dif_pos (.inl (by omega))]
    rfl
  split
  · exact hreplacement
  split
  · refine ⟨List.not_mem_nil, fun p hp => ?_⟩
    obtain rfl := Option.mem_some.1 hp
    refine ⟨0, rfl, fun c hlow hhigh => ?_⟩
    dsimp only at hlow hhigh ⊢
    -- No two bytes make a character below 128.
    unfold Proper
    omega
  split
  · refine ⟨List.not_mem_nil, fun p hp => ?_⟩
    obtain rfl := Option.mem_some.1 hp
    refine ⟨1, rfl, fun c hlow hhigh c' hlow' hhigh' => ?_⟩
    dsimp only at hlow hhigh ⊢
    unfold Proper
    split at hlow <;> split at hhigh <;> omega
  split
  · refine ⟨List.not_mem_nil, fun p hp => ?_⟩
    obtain rfl := Option.mem_some.1 hp
    refine ⟨2, rfl, fun c hlow hhigh c' hlow' hhigh' c'' hlow'' hhigh'' => ?_⟩
    dsimp only at hlow hhigh ⊢
    unfold Proper
    split at hlow <;> split at hhigh <;> omega
  · exact hreplacement

/-- A byte other than that of a character below 128 does not bring it forth. -/
theorem proper_next {p : Option Pending} (hc : c.toNat < 0x80) (hb : b ≠ c.toNat) (hp : ∀ q ∈ p, q.Proper) :
    c ∉ (next b p).1 ∧ ∀ q ∈ (next b p).2, q.Proper := by
  cases p with
  | none => exact proper_first hc hb
  | some p =>
    obtain ⟨left, hleft, hproper⟩ := hp p rfl
    unfold next
    dsimp only
    split
    · next hin =>
      have hcode := hproper b hin.1 hin.2
      cases left with
      | zero =>
        rw [if_pos (by omega)]
        exact ⟨fun hmem => ofNat_ne hcode hc (List.mem_singleton.1 hmem), fun q hq => nomatch hq⟩
      | succ left =>
        rw [if_neg (by omega)]
        refine ⟨List.not_mem_nil, fun q hq => ?_⟩
        obtain rfl := Option.mem_some.1 hq
        exact ⟨left, by dsimp only; omega, hcode⟩
    · obtain ⟨hnow, hnext⟩ := proper_first hc hb
      refine ⟨fun hmem => ?_, hnext⟩
      rcases List.mem_cons.1 hmem with hreplaced | hmem
      · exact ne_replacement hc hreplaced
      · exact hnow hmem

/-- **A character below 128 is read from its byte only.** -/
theorem exists_of_mem_chars {p : Option Pending} (hc : c.toNat < 0x80) (hp : ∀ q ∈ p, q.Proper)
    (hmem : c ∈ chars p bs) :
    ∃ a ∈ bs, a.toNat = c.toNat := by
  induction bs generalizing p with
  | nil =>
    cases p with
    | none => cases hmem
    | some q => exact absurd (List.mem_singleton.1 hmem) (ne_replacement hc)
  | cons b bs ih =>
    by_cases hb : b.toNat = c.toNat
    · exact ⟨b, List.mem_cons_self, hb⟩
    · obtain ⟨hnow, hnext⟩ := proper_next hc hb hp
      rw [chars_cons, List.mem_append] at hmem
      obtain ⟨a, ha, hac⟩ := ih hnext (hmem.resolve_left hnow)
      exact ⟨a, List.mem_cons_of_mem _ ha, hac⟩

/-- Bytes without zero give text without the character of code zero. -/
theorem zero_notMem_chars (hbs : 0 ∉ bs) : '\x00' ∉ chars none bs := by
  intro hmem
  obtain ⟨a, ha, hzero⟩ := exists_of_mem_chars (by decide) (by simp) hmem
  have heq : a = 0 := UInt8.toNat_inj.1 hzero
  exact hbs (heq ▸ ha)

end Utf8

end LayeredBundles
