import LayeredBundles.Json.Value
import LayeredBundles.Text.Hex

/-! # JSON tokens

Text is cut into tokens by a machine that reads one character at a time.

* **`Json.Token`** — marks, texts and bare words (numbers and the three literals);
* **`Json.Lexer`** — what has been read of the token at hand;
* **`Json.Token.scan`** — the tokens of a text, or nothing when a text is left open, holds a control
  character or an unknown escape, or pairs surrogates wrongly. -/

namespace LayeredBundles

namespace Json

/-- A token. -/
inductive Token where
  /-- `[` -/
  | openArray
  /-- `]` -/
  | closeArray
  /-- The brace that opens an object. -/
  | openObject
  /-- The brace that closes an object. -/
  | closeObject
  /-- `,` -/
  | comma
  /-- `:` -/
  | colon
  /-- A quoted text. -/
  | text (value : String)
  /-- A literal other than a text. -/
  | scalar (value : Json)
  deriving Repr

/-! ## (1) Bare words -/

/-- The value of a run of decimal digits. -/
def natOfDigits (ds : List Char) : Nat := ds.foldl (fun n c => 10 * n + (c.toNat - 48)) 0

/-- Split off an exponent: `e` or `E`, an optional sign, and at least one digit. -/
def exponent? : List Char → Option Int
  | [] => some 0
  | c :: rest =>
    if c = 'e' ∨ c = 'E' then
      let (negative, ds) := match rest with
        | '-' :: ds => (true, ds)
        | '+' :: ds => (false, ds)
        | ds => (false, ds)
      if ds ≠ [] ∧ ds.all Char.isDigit then
        some (if negative then -(natOfDigits ds : Int) else natOfDigits ds)
      else none
    else none

/-- An integer when it fits 64 bits, signed or unsigned, and is no negative zero; else a double. -/
def integerNumber (negative : Bool) (n : Nat) : Number :=
  if negative then
    if 0 < n ∧ n ≤ 0x8000000000000000 then .int (-(n : Int)) else .double (Double.ofDecimal true n 0)
  else if n < UInt64.size then .int n else .double (Double.ofDecimal false n 0)

/-- A number without its sign: digits without a leading zero, then an optional fraction and an
optional exponent. -/
def unsignedNumber? (negative : Bool) (cs : List Char) : Option Number :=
  let whole := cs.takeWhile Char.isDigit
  let rest := cs.dropWhile Char.isDigit
  if whole = [] ∨ (whole.head? = some '0' ∧ whole.length > 1) then none
  else
    match rest with
    | [] => some (integerNumber negative (natOfDigits whole))
    | '.' :: rest =>
      let fraction := rest.takeWhile Char.isDigit
      if fraction = [] then none
      else (exponent? (rest.dropWhile Char.isDigit)).map fun e =>
        .double (Double.ofDecimal negative (natOfDigits (whole ++ fraction)) (e - fraction.length))
    | rest => (exponent? rest).map fun e =>
        .double (Double.ofDecimal negative (natOfDigits whole) e)

/-- The value of a bare word. -/
def bareWord? (cs : List Char) : Option Json :=
  if cs = "true".toList then some (.bool true)
  else if cs = "false".toList then some (.bool false)
  else if cs = "null".toList then some .null
  else match cs with
    | '-' :: cs => (unsignedNumber? true cs).map .number
    | cs => (unsignedNumber? false cs).map .number

/-! ## (2) The machine -/

/-- What has been read of the token at hand; texts and words in reverse. -/
inductive Lexer where
  /-- Between tokens. -/
  | between
  /-- Inside a bare word. -/
  | word (rev : List Char)
  /-- Inside a text. -/
  | text (rev : List Char)
  /-- After a backslash in a text. -/
  | escape (rev : List Char)
  /-- In the four digits of an escape: the high surrogate before it, if any, the number of digits
  still to come, and the value of those read. -/
  | digits (rev : List Char) (high : Option Nat) (left value : Nat)
  /-- After a high surrogate: the backslash of the low one has to come. -/
  | lowBackslash (rev : List Char) (high : Nat)
  /-- After a high surrogate and a backslash. -/
  | lowLetter (rev : List Char) (high : Nat)

/-- The character a one-letter escape stands for. -/
def escaped? : Char → Option Char
  | '"' => some '"'
  | '\\' => some '\\'
  | '/' => some '/'
  | 'b' => some '\x08'
  | 'f' => some '\x0c'
  | 'n' => some '\n'
  | 'r' => some '\r'
  | 't' => some '\t'
  | _ => none

/-- Blanks between tokens. -/
def isBlank (c : Char) : Bool := c = ' ' || c = '\t' || c = '\n' || c = '\r'

/-- The mark a character is by itself. -/
def mark? : Char → Option Token
  | '[' => some .openArray
  | ']' => some .closeArray
  | '{' => some .openObject
  | '}' => some .closeObject
  | ',' => some .comma
  | ':' => some .colon
  | _ => none

/-- One character between tokens. -/
def Lexer.start (c : Char) : Option (Lexer × List Token) :=
  if isBlank c then some (.between, [])
  else if c = '"' then some (.text [], [])
  else match mark? c with
    | some t => some (.between, [t])
    | none => some (.word [c], [])

/-- The end of a four-digit escape: a high surrogate waits for a low one, a low one is joined to the
high one before it, and any other value is a character. -/
def Lexer.finishDigits (rev : List Char) (high : Option Nat) (value : Nat) : Option Lexer :=
  match high with
  | none =>
    if 0xD800 ≤ value ∧ value < 0xDC00 then some (.lowBackslash rev value)
    else if 0xDC00 ≤ value ∧ value < 0xE000 then none
    else some (.text (Char.ofNat value :: rev))
  | some h =>
    if 0xDC00 ≤ value ∧ value < 0xE000 then
      some (.text (Char.ofNat (0x10000 + (h - 0xD800) * 0x400 + (value - 0xDC00)) :: rev))
    else none

/-- The state and the tokens completed by one more character. -/
def Lexer.step : Lexer → Char → Option (Lexer × List Token)
  | .between, c => start c
  | .word rev, c =>
    -- a word ends at what cannot belong to it, and that begins the next token
    if isBlank c || c = '"' || (mark? c).isSome then do
      let v ← bareWord? rev.reverse
      let (next, ts) ← start c
      return (next, .scalar v :: ts)
    else some (.word (c :: rev), [])
  | .text rev, c =>
    if c = '"' then some (.between, [.text (String.ofList rev.reverse)])
    else if c = '\\' then some (.escape rev, [])
    else if c < ' ' then none
    else some (.text (c :: rev), [])
  | .escape rev, c =>
    if c = 'u' then some (.digits rev none 4 0, [])
    else (escaped? c).map fun e => (.text (e :: rev), [])
  | .digits rev high left value, c => do
    let d ← Hex.value? c
    if left ≤ 1 then
      let next ← finishDigits rev high (16 * value + d)
      return (next, [])
    else some (.digits rev high (left - 1) (16 * value + d), [])
  | .lowBackslash rev high, c => if c = '\\' then some (.lowLetter rev high, []) else none
  | .lowLetter rev high, c => if c = 'u' then some (.digits rev (some high) 4 0, []) else none

/-- The token completed by the end of the text. -/
def Lexer.finish : Lexer → Option (List Token)
  | .between => some []
  | .word rev => (bareWord? rev.reverse).map fun v => [.scalar v]
  | _ => none

/-- The tokens of the rest of a text, newest first in front of `done`. -/
def Lexer.run (done : List Token) : Lexer → List Char → Option (List Token)
  | state, [] => state.finish.map fun ts => (ts.reverse ++ done).reverse
  | state, c :: cs => do
    let (next, ts) ← state.step c
    run (ts.reverse ++ done) next cs

/-- The tokens of a text. -/
def Token.scan (s : String) : Option (List Token) := Lexer.run [] .between s.toList

end Json

end LayeredBundles
