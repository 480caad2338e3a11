import LayeredBundles.Json.Printer
import LayeredBundles.Json.Reader
import LayeredBundles.Proofs.Paths

/-! # What is written as JSON is read back

Written text is cut into tokens that do not depend on blanks, and the tokens are put together to the value
they were written for. Doubles are left out.

* **`Json.IsExact`** — values without doubles;
* **`Json.tokens`** — the tokens of a value;
* **`Json.run_prettyAt`** — the lexer reads the tokens of a written value;
* **`Json.run_tokens`** — the builder puts the tokens of a value together;
* **`Json.parse?_pretty`** — a value that is written is read back. -/

namespace LayeredBundles

namespace Json

/-! ## (1) Values and their tokens -/

mutual

/-- Every number is a natural number of 64 bits. -/
def IsExact : Json → Prop
  | .number (.int n) => 0 ≤ n ∧ n < UInt64.size
  | .number (.double _) => False
  | .array items => AreExact items
  | .object members => HaveExact members
  | _ => True

/-- `IsExact` of each item. -/
def AreExact : List Json → Prop
  | [] => True
  | v :: rest => IsExact v ∧ AreExact rest

/-- `IsExact` of the value of each member. -/
def HaveExact : List (String × Json) → Prop
  | [] => True
  | (_, v) :: rest => IsExact v ∧ HaveExact rest

end

/-- Members are exact if the value of each is. -/
theorem haveExact_iff {members : List (String × Json)} : HaveExact members ↔ ∀ m ∈ members, IsExact m.2 := by
  induction members with
  | nil => simp [HaveExact]
  | cons m members ih => simp [HaveExact, ih]

mutual

/-- The tokens of a value. -/
def tokens : Json → List Token
  | .string s => [.text s]
  | .array items => .openArray :: (itemTokens items ++ [.closeArray])
  | .object members => .openObject :: (memberTokens members ++ [.closeObject])
  | v => [.scalar v]

/-- The tokens of items with commas between them. -/
def itemTokens : List Json → List Token
  | [] => []
  | [v] => tokens v
  | v :: rest => tokens v ++ .comma :: itemTokens rest

/-- The tokens of members with commas between them. -/
def memberTokens : List (String × Json) → List Token
  | [] => []
  | [(k, v)] => .text k :: .colon :: tokens v
  | (k, v) :: rest => .text k :: .colon :: (tokens v ++ .comma :: memberTokens rest)

end

/-! ## (2) Cutting text into tokens -/

namespace Lexer

/-- Characters are read one after the other. -/
theorem run_cons (done : List Token) (state : Lexer) (c : Char) (cs : List Char) :
    run done state (c :: cs) = (state.step c).bind fun p => run (p.2.reverse ++ done) p.1 cs := rfl

/-- A step that completes no token. -/
theorem run_of_step {state next : Lexer} {c : Char} (h : state.step c = some (next, [])) (done : List Token)
    (cs : List Char) : run done state (c :: cs) = run done next cs := by
  rw [run_cons, h]
  rfl

/-- Blanks between tokens are skipped. -/
theorem run_blanks (done : List Token) {blanks : List Char} (h : ∀ c ∈ blanks, isBlank c = true)
    (cs : List Char) : run done .between (blanks ++ cs) = run done .between cs := by
  induction blanks with
  | nil => rfl
  | cons c blanks ih =>
    have hstep : step .between c = some (.between, []) := by simp [step, start, h c (by simp)]
    rw [List.cons_append, run_of_step hstep]
    exact ih fun c' hc' => h c' (List.mem_cons_of_mem _ hc')

/-- A mark is a token by itself. -/
theorem run_mark {c : Char} {t : Token} (h : mark? c = some t) (done : List Token) (cs : List Char) :
    run done .between (c :: cs) = run (t :: done) .between cs := by
  have hblank : isBlank c = false ∧ c ≠ '"' := by
    constructor
    · rw [← Bool.not_eq_true]
      intro hblank
      simp only [isBlank, Bool.or_eq_true, decide_eq_true_eq] at hblank
      rcases hblank with ((rfl | rfl) | rfl) | rfl <;> simp [mark?] at h
    · rintro rfl
      simp [mark?] at h
  have hstep : step .between c = some (.between, [t]) := by simp [step, start, hblank, h]
  rw [run_cons, hstep]
  rfl

/-! ### Texts -/

/-- A digit is read back as its value. -/
theorem value?_digit : ∀ n < 16, Hex.value? (Hex.digit n) = some n := by decide

/-- A character of a text is read as it was written. -/
theorem run_quoteChar (done : List Token) (rev : List Char) (c : Char) (cs : List Char) :
    run done (.text rev) (quoteChar c ++ cs) = run done (.text (c :: rev)) cs := by
  -- The escapes of one letter.
  have hletter : ∀ {letter : Char}, letter ≠ 'u' → escaped? letter = some c →
      run done (.text rev) (['\\', letter] ++ cs) = run done (.text (c :: rev)) cs := by
    intro letter hu hescaped
    have hstep : step (.escape rev) letter = some (.text (c :: rev), []) := by
      simp [step, hu, hescaped]
    exact (run_of_step rfl _ _).trans (run_of_step hstep _ _)
  unfold quoteChar
  split
  · next h => subst h; exact hletter (by decide) rfl
  split
  · next h => subst h; exact hletter (by decide) rfl
  split
  · next h => subst h; exact hletter (by decide) rfl
  split
  · next h => subst h; exact hletter (by decide) rfl
  split
  · next h => subst h; exact hletter (by decide) rfl
  split
  · next h => subst h; exact hletter (by decide) rfl
  split
  · next h => subst h; exact hletter (by decide) rfl
  split
  · next hquote hslash _ _ _ _ _ hlow =>
    -- The other control characters are written as four digits, of which two are zero.
    have hlt : c.toNat < 32 := hlow
    have hhigh := value?_digit (c.toNat / 16) (by omega)
    have hrest := value?_digit (c.toNat % 16) (by omega)
    have hvalue : 16 * (c.toNat / 16) + c.toNat % 16 = c.toNat := by omega
    have hfinish : finishDigits rev none c.toNat = some (.text (c :: rev)) := by
      have h₁ : ¬ (0xD800 ≤ c.toNat ∧ c.toNat < 0xDC00) := by omega
      have h₂ : ¬ (0xDC00 ≤ c.toNat ∧ c.toNat < 0xE000) := by omega
      simp only [finishDigits, if_neg h₁, if_neg h₂, Char.ofNat_toNat]
    have hone : step (.digits rev none 2 0) (Hex.digit (c.toNat / 16))
        = some (.digits rev none 1 (c.toNat / 16), []) := by
      simp [step, hhigh]
    have htwo : step (.digits rev none 1 (c.toNat / 16)) (Hex.digit (c.toNat % 16))
        = some (.text (c :: rev), []) := by
      simp [step, hrest, hvalue, hfinish]
    calc run done (.text rev)
          (['\\', 'u', '0', '0', Hex.digit (c.toNat / 16), Hex.digit (c.toNat % 16)] ++ cs)
        = run done (.digits rev none 2 0) (Hex.digit (c.toNat / 16) :: Hex.digit (c.toNat % 16) :: cs) := rfl
      _ = run done (.digits rev none 1 (c.toNat / 16)) (Hex.digit (c.toNat % 16) :: cs) := run_of_step hone _ _
      _ = run done (.text (c :: rev)) cs := run_of_step htwo _ _
  · next hquote hslash _ _ _ _ _ hlow =>
    refine run_of_step ?_ done cs
    simp [step, hquote, hslash, hlow]

/-- A text in quotes is read as the text. -/
theorem run_quote (done : List Token) (s : String) (cs : List Char) :
    run done .between ((quote s).toList ++ cs) = run (.text s :: done) .between cs := by
  have hbody : ∀ (chars rev : List Char), run done (.text rev) (chars.flatMap quoteChar ++ '"' :: cs)
      = run done (.text (chars.reverse ++ rev)) ('"' :: cs) := by
    intro chars
    induction chars with
    | nil => exact fun rev => rfl
    | cons c chars ih =>
      intro rev
      rw [List.flatMap_cons, List.append_assoc, run_quoteChar, ih]
      simp
  have hbegin : step .between '"' = some (.text [], []) := rfl
  have hend : step (.text s.toList.reverse) '"' = some (.between, [.text s]) := by simp [step]
  have hquote : (quote s).toList ++ cs = '"' :: (s.toList.flatMap quoteChar ++ '"' :: cs) := by
    simp [quote]
  rw [hquote, run_of_step hbegin, hbody, List.append_nil, run_cons, hend]
  rfl

/-! ### Bare words -/

/-- A character that ends a bare word. -/
def endsWord (c : Char) : Bool := isBlank c || c = '"' || (mark? c).isSome

/-- Text in front of which a bare word ends. -/
def Delimited (cs : List Char) : Prop := ∀ c ∈ cs.head?, endsWord c = true

/-- A bare word is read up to what ends it. -/
theorem run_word (done : List Token) {word cs : List Char} {v : Json} (hne : word ≠ [])
    (hword : ∀ c ∈ word, endsWord c = false) (hvalue : bareWord? word = some v) (hcs : Delimited cs) :
    run done .between (word ++ cs) = run (.scalar v :: done) .between cs := by
  have hplain : ∀ c ∈ word, isBlank c = false ∧ c ≠ '"' ∧ mark? c = none := by
    intro c hc
    simpa [endsWord, and_assoc] using hword c hc
  -- The word is gathered backwards, and turned round when it ends.
  have hbody : ∀ (chars rev : List Char), (∀ c ∈ chars, endsWord c = false) →
      run done (.word rev) (chars ++ cs) = run done (.word (chars.reverse ++ rev)) cs := by
    intro chars
    induction chars with
    | nil => exact fun rev _ => rfl
    | cons c chars ih =>
      intro rev hchars
      have hstep : step (.word rev) c = some (.word (c :: rev), []) := by
        have := hchars c (by simp)
        rw [step, if_neg (by simpa [endsWord] using this)]
      rw [List.cons_append, run_of_step hstep, ih (c :: rev) fun c' hc' => hchars c' (by simp [hc'])]
      simp
  have hend : run done (.word word.reverse) cs = run (.scalar v :: done) .between cs := by
    cases cs with
    | nil => simp [run, finish, hvalue]
    | cons c cs =>
      have hc : endsWord c = true := hcs c rfl
      have hstep : step (.word word.reverse) c = (start c).map fun p => (p.1, .scalar v :: p.2) := by
        rw [step, if_pos (by simpa [endsWord] using hc), List.reverse_reverse, hvalue]
        rcases start c with _ | ⟨next, ts⟩ <;> rfl
      rw [run_cons, run_cons, hstep, step]
      rcases start c with _ | ⟨next, ts⟩
      · rfl
      · simp
  obtain ⟨c, rest, rfl⟩ := List.exists_cons_of_ne_nil hne
  obtain ⟨hblank, hquote, hmark⟩ := hplain c (by simp)
  have hstep : step .between c = some (.word [c], []) := by simp [step, start, hblank, hquote, hmark]
  rw [List.cons_append, run_of_step hstep, hbody rest [c] fun c' hc' => hword c' (by simp [hc']),
    ← List.reverse_cons, hend]

/-- A digit does not end a bare word. -/
theorem endsWord_of_isDigit {c : Char} (h : c.isDigit = true) : endsWord c = false := by
  rw [← Bool.not_eq_true]
  intro hends
  simp only [endsWord, isBlank, Bool.or_eq_true, decide_eq_true_eq, Option.isSome_iff_exists] at hends
  rcases hends with ((((rfl | rfl) | rfl) | rfl) | rfl) | ⟨t, ht⟩
  all_goals try exact absurd h (by decide)
  unfold mark? at ht
  split at ht <;> first | exact absurd h (by decide) | cases ht

end Lexer

/-- Digits do not begin with a zero, except for zero itself. -/
theorem head?_toDigits {n : Nat} (h : 0 < n) : (Nat.toDigits 10 n).head? ≠ some '0' := by
  induction n using Nat.strongRecOn with
  | ind n ih =>
    rw [Nat.toDigits_eq_if (by decide)]
    split
    · simp only [List.head?_cons, ne_eq, Option.some.injEq, Nat.digitChar_eq_zero]
      omega
    · have hne : Nat.toDigits 10 (n / 10) ≠ [] := Nat.toDigits_ne_nil
      rw [List.head?_append_of_ne_nil _ hne]
      exact ih (n / 10) (by omega) (by omega)

/-- A number is read back from its digits. -/
theorem natOfDigits_toDigits (n : Nat) : natOfDigits (Nat.toDigits 10 n) = n := by
  have := Nat.ofDigitChars_ten_toDigits (n := n)
  simpa [Nat.ofDigitChars_eq_foldl, natOfDigits] using this

/-- The digits of a number of 64 bits are a bare word for it. -/
theorem bareWord?_toDigits {n : Nat} (h : n < UInt64.size) :
    bareWord? (Nat.toDigits 10 n) = some (.number (.int n)) := by
  have hdigit : ∀ c ∈ Nat.toDigits 10 n, c.isDigit = true := fun c hc =>
    Nat.isDigit_of_mem_toDigits (by decide) (by decide) hc
  have hne : Nat.toDigits 10 n ≠ [] := Nat.toDigits_ne_nil
  have hword : ∀ {c : Char} {cs : List Char}, c.isDigit = false → Nat.toDigits 10 n ≠ c :: cs := by
    intro c cs hc heq
    have := hdigit c (by rw [heq]; simp)
    rw [hc] at this
    cases this
  have hwhole : (Nat.toDigits 10 n).takeWhile Char.isDigit = Nat.toDigits 10 n :=
    List.takeWhile_eq_self_iff.2 hdigit
  have hrest : (Nat.toDigits 10 n).dropWhile Char.isDigit = [] := List.dropWhile_eq_nil_iff.2 hdigit
  -- A zero in front is refused, and there is none.
  have hzero : ¬ ((Nat.toDigits 10 n).head? = some '0' ∧ 1 < (Nat.toDigits 10 n).length) := by
    rintro ⟨hhead, hlength⟩
    rcases Nat.eq_zero_or_pos n with rfl | hpos
    · simp at hlength
    · exact head?_toDigits hpos hhead
  have hnumber : unsignedNumber? false (Nat.toDigits 10 n) = some (.int n) := by
    unfold unsignedNumber?
    simp only [hwhole, hrest, hne, false_or, gt_iff_lt, if_neg hzero, natOfDigits_toDigits]
    simp [integerNumber, h]
  have htrue : Nat.toDigits 10 n ≠ "true".toList := hword (c := 't') (by decide)
  have hfalse : Nat.toDigits 10 n ≠ "false".toList := hword (c := 'f') (by decide)
  have hnull : Nat.toDigits 10 n ≠ "null".toList := hword (c := 'n') (by decide)
  unfold bareWord?
  rw [if_neg htrue, if_neg hfalse, if_neg hnull]
  split
  · next heq => exact absurd heq (hword (by decide))
  · rw [hnumber]
    rfl

/-! ### Values -/

/-- A bare word ends in front of a line break. -/
theorem delimited_newline (depth : Nat) (cs : List Char) :
    Lexer.Delimited ((newline depth).toList ++ cs) := by
  intro c hc
  simp only [newline, String.toList_ofList, List.cons_append, List.head?_cons, Option.mem_some_iff] at hc
  exact hc ▸ rfl

/-- A bare word ends in front of a comma. -/
theorem delimited_comma (cs : List Char) : Lexer.Delimited (",".toList ++ cs) := by
  intro c hc
  cases hc
  rfl

/-- Between tokens a line break and the blanks behind it are passed over. -/
theorem run_newline (done : List Token) (depth : Nat) (cs : List Char) :
    Lexer.run done .between ((newline depth).toList ++ cs) = Lexer.run done .between cs := by
  refine Lexer.run_blanks done (fun c hc => ?_) cs
  simp only [newline, String.toList_ofList, List.mem_cons, List.mem_replicate] at hc
  rcases hc with rfl | ⟨-, rfl⟩ <;> decide

mutual

/-- **The lexer reads the tokens of a written value**, if what follows ends a bare word. -/
theorem run_prettyAt (v : Json) (hv : IsExact v) (depth : Nat) (done : List Token) {cs : List Char}
    (hcs : Lexer.Delimited cs) : Lexer.run done .between ((prettyAt depth v).toList ++ cs)
      = Lexer.run ((tokens v).reverse ++ done) .between cs := by
  have hmark : ∀ {c : Char} {t : Token}, mark? c = some t → ∀ done cs,
      Lexer.run done .between ([c] ++ cs) = Lexer.run (t :: done) .between cs := fun h done cs =>
    Lexer.run_mark h done cs
  have hliteral : ∀ (word : String) {v : Json}, word.toList ≠ [] →
      word.toList.all (fun c => !Lexer.endsWord c) = true → bareWord? word.toList = some v →
      Lexer.run done .between (word.toList ++ cs) = Lexer.run (.scalar v :: done) .between cs :=
    fun _ _ hne hword hvalue =>
      Lexer.run_word done hne (fun c hc => by simpa using List.all_eq_true.1 hword c hc) hvalue hcs
  cases v with
  | null => exact hliteral "null" (by decide) (by decide) rfl
  | bool b =>
    cases b with
    | true => exact hliteral "true" (by decide) (by decide) rfl
    | false => exact hliteral "false" (by decide) (by decide) rfl
  | number n =>
    cases n with
    | double d => exact hv.elim
    | int n =>
      -- An exact integer is not negative, so it is written as its digits.
      obtain ⟨hpos, hlt⟩ := hv
      obtain ⟨k, rfl⟩ := Int.eq_ofNat_of_zero_le hpos
      have htext : (prettyAt depth (.number (.int k))).toList = Nat.toDigits 10 k := by
        have hrepr : toString (k : Int) = Nat.repr k := rfl
        simp [prettyAt, Number.write, hrepr]
      rw [htext]
      refine Lexer.run_word done Nat.toDigits_ne_nil (fun c hc => Lexer.endsWord_of_isDigit ?_)
        (bareWord?_toDigits (by omega)) hcs
      exact Nat.isDigit_of_mem_toDigits (by decide) (by decide) hc
  | string s => exact Lexer.run_quote done s cs
  -- Items are written between marks, each behind a line break.
  | array items =>
    cases items with
    | nil =>
      simp only [prettyAt, tokens, itemTokens]
      exact (hmark (c := '[') rfl done (']' :: cs)).trans (hmark (c := ']') rfl _ cs)
    | cons v items =>
      simp only [prettyAt, String.toList_append, List.append_assoc]
      refine (hmark (c := '[') rfl done _).trans ?_
      rw [run_prettyItems (v :: items) hv (depth + 1) _ (delimited_newline depth _), run_newline]
      refine (hmark (c := ']') rfl _ cs).trans ?_
      simp [tokens]
  | object members =>
    cases members with
    | nil =>
      simp only [prettyAt, tokens, memberTokens]
      exact (hmark (c := '{') rfl done ('}' :: cs)).trans (hmark (c := '}') rfl _ cs)
    | cons m members =>
      simp only [prettyAt, String.toList_append, List.append_assoc]
      refine (hmark (c := '{') rfl done _).trans ?_
      rw [run_prettyMembers (m :: members) hv (depth + 1) _ (delimited_newline depth _), run_newline]
      refine (hmark (c := '}') rfl _ cs).trans ?_
      simp [tokens]

/-- The lexer reads the tokens of written items. -/
theorem run_prettyItems (items : List Json) (hitems : AreExact items) (depth : Nat) (done : List Token)
    {cs : List Char} (hcs : Lexer.Delimited cs) :
    Lexer.run done .between ((prettyItems depth items).toList ++ cs)
      = Lexer.run ((itemTokens items).reverse ++ done) .between cs := by
  match items with
  | [] => rfl
  | [v] =>
    simp only [prettyItems, String.toList_append, List.append_assoc, run_newline, itemTokens]
    exact run_prettyAt v hitems.1 depth done hcs
  | v :: w :: rest =>
    simp only [prettyItems, String.toList_append, List.append_assoc, run_newline, itemTokens]
    rw [run_prettyAt v hitems.1 depth done (delimited_comma _)]
    refine (Lexer.run_mark (c := ',') rfl _ ((prettyItems depth (w :: rest)).toList ++ cs)).trans ?_
    rw [run_prettyItems (w :: rest) hitems.2 depth _ hcs]
    simp

/-- The lexer reads the tokens of written members. -/
theorem run_prettyMembers (members : List (String × Json)) (hmembers : HaveExact members) (depth : Nat)
    (done : List Token) {cs : List Char} (hcs : Lexer.Delimited cs) :
    Lexer.run done .between ((prettyMembers depth members).toList ++ cs)
      = Lexer.run ((memberTokens members).reverse ++ done) .between cs := by
  have hkey : ∀ (k : String) (done : List Token) (cs : List Char),
      Lexer.run done .between ((quote k).toList ++ (": ".toList ++ cs))
        = Lexer.run (.colon :: .text k :: done) .between cs := by
    intro k done cs
    rw [Lexer.run_quote]
    have hblank : ∀ c ∈ [' '], isBlank c = true := by simp [isBlank]
    exact (Lexer.run_mark (c := ':') rfl _ _).trans (Lexer.run_blanks _ hblank cs)
  match members with
  | [] => rfl
  | [(k, v)] =>
    simp only [prettyMembers, String.toList_append, List.append_assoc, run_newline, memberTokens, hkey]
    rw [run_prettyAt v hmembers.1 depth _ hcs]
    simp
  | (k, v) :: m :: rest =>
    simp only [prettyMembers, String.toList_append, List.append_assoc, run_newline, memberTokens, hkey]
    rw [run_prettyAt v hmembers.1 depth _ (delimited_comma _)]
    refine (Lexer.run_mark (c := ',') rfl _ ((prettyMembers depth (m :: rest)).toList ++ cs)).trans ?_
    rw [run_prettyMembers (m :: rest) hmembers.2 depth _ hcs]
    simp

end

/-- The tokens of a written value. -/
theorem scan_pretty {v : Json} (hv : IsExact v) : Token.scan (pretty v) = some (tokens v) := by
  have hend : Lexer.Delimited [] := by simp [Lexer.Delimited]
  have h := run_prettyAt v hv 0 [] hend
  rw [List.append_nil, List.append_nil] at h
  rw [Token.scan, pretty, h]
  simp [Lexer.run, Lexer.finish]

/-! ## (3) Putting tokens together -/

/-- Tokens are taken one after the other. -/
theorem Builder.run_cons (b : Builder) (t : Token) (ts : List Token) :
    b.run (t :: ts) = (b.step t).bind fun b => run b ts := rfl

/-- A value that stands where an array may end begins an item. -/
theorem run_firstItem (v : Json) (stack : List Frame) (ts : List Token) :
    Builder.run (.firstItem stack) (tokens v ++ ts) = Builder.run (.value (.array [] :: stack)) (tokens v ++ ts) := by
  cases v <;> rfl

mutual

/-- **The builder puts the tokens of a value together.** -/
theorem run_tokens (v : Json) (stack : List Frame) (ts : List Token) :
    Builder.run (.value stack) (tokens v ++ ts) = Builder.run (Builder.accept v stack) ts := by
  cases v with
  | null => rfl
  | bool b => rfl
  | number n => rfl
  | string s => rfl
  | array items =>
    cases items with
    | nil => rfl
    | cons v items =>
      -- The first item tells the builder that the array is not empty.
      have hitems := run_itemTokens (v :: items) (List.cons_ne_nil _ _) [] stack ts
      cases items with
      | nil =>
        simp only [tokens, itemTokens, List.cons_append, List.append_assoc, List.nil_append] at hitems ⊢
        exact (run_firstItem v stack _).trans hitems
      | cons w items =>
        simp only [tokens, itemTokens, List.cons_append, List.append_assoc, List.nil_append] at hitems ⊢
        exact (run_firstItem v stack _).trans hitems
  | object members =>
    cases members with
    | nil => rfl
    | cons m members =>
      have hmembers := run_memberTokens (m :: members) (List.cons_ne_nil _ _) [] stack ts
      cases members with
      | nil =>
        simp only [tokens, memberTokens, List.cons_append, List.append_assoc, List.nil_append] at hmembers ⊢
        exact hmembers
      | cons m' members =>
        simp only [tokens, memberTokens, List.cons_append, List.append_assoc, List.nil_append] at hmembers ⊢
        exact hmembers

/-- The builder puts items together, after those it has already. -/
theorem run_itemTokens (items : List Json) (hne : items ≠ []) (rev : List Json) (stack : List Frame)
    (ts : List Token) :
    Builder.run (.value (.array rev :: stack)) (itemTokens items ++ .closeArray :: ts)
      = Builder.run (Builder.accept (.array (rev.reverse ++ items)) stack) ts := by
  match items with
  | [] => exact absurd rfl hne
  | [v] =>
    simp only [itemTokens]
    rw [run_tokens v, Builder.accept, Builder.run_cons]
    simp [Builder.step]
  | v :: w :: rest =>
    simp only [itemTokens, List.append_assoc, List.cons_append]
    rw [run_tokens v, Builder.accept, Builder.run_cons]
    refine (run_itemTokens (w :: rest) (List.cons_ne_nil _ _) (v :: rev) stack ts).trans ?_
    simp

/-- The builder puts members together, after those it has already. -/
theorem run_memberTokens (members : List (String × Json)) (hne : members ≠ []) (rev : List (String × Json))
    (stack : List Frame) (ts : List Token) :
    Builder.run (.key stack rev) (memberTokens members ++ .closeObject :: ts)
      = Builder.run (Builder.accept (.object (rev.reverse ++ members)) stack) ts := by
  match members with
  | [] => exact absurd rfl hne
  | [(k, v)] =>
    simp only [memberTokens, List.cons_append]
    refine (run_tokens v (.object rev k :: stack) _).trans ?_
    rw [Builder.accept, Builder.run_cons]
    simp [Builder.step]
  | (k, v) :: m :: rest =>
    simp only [memberTokens, List.append_assoc, List.cons_append]
    refine (run_tokens v (.object rev k :: stack) _).trans ?_
    rw [Builder.accept, Builder.run_cons]
    refine (run_memberTokens (m :: rest) (List.cons_ne_nil _ _) ((k, v) :: rev) stack ts).trans ?_
    simp

end

/-- **A value is built again from its tokens.** -/
theorem ofTokens?_tokens (v : Json) : ofTokens? (tokens v) = some v := by
  have h := run_tokens v [] []
  rw [List.append_nil] at h
  rw [ofTokens?, h]
  rfl

/-- **A value that is written is read back.** -/
theorem parse?_pretty {v : Json} (hv : IsExact v) : parse? (pretty v) = some v := by
  rw [parse?, scan_pretty hv]
  exact ofTokens?_tokens v

end Json

end LayeredBundles
