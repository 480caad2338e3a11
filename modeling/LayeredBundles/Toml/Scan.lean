import LayeredBundles.Calendar
import LayeredBundles.Text.Hex
import LayeredBundles.Toml.Value

/-! # The scalars of a TOML document

Readers take the beginning of a list of characters and leave the rest.

* **`Toml.Scan`** — what a reader does;
* **`Toml.text`** — the four forms of a text;
* **`Toml.scalar?`** — the value of a bare run of characters: truth values, numbers, dates and times. -/

namespace LayeredBundles

namespace Toml

/-- A reader: a value and the characters after it, or nothing. -/
abbrev Scan (α : Type) := List Char → Option (α × List Char)

/-- A blank within a line. -/
def isBlank (c : Char) : Bool := c = ' ' || c = '\t'

/-- A character that may stand in a text or a comment: no control character but the tab. -/
def isPlain (c : Char) : Bool := c = '\t' || (' ' ≤ c && c ≠ '\x7f')

/-- The characters after the blanks. -/
def skipBlanks (cs : List Char) : List Char := cs.dropWhile isBlank

/-! ## (1) Texts -/

/-- The number of hexadecimal digits, most significant first. -/
def hexNumber? (ds : List Char) : Option Nat :=
  ds.foldlM (fun n d => (Hex.value? d).map (16 * n + ·)) 0

/-- The character of hexadecimal digits, if they number one. -/
def charOf? (ds : List Char) : Option Char :=
  (hexNumber? ds).bind fun n => if n.isValidChar then some (Char.ofNat n) else none

/-- The character a one-letter escape stands for. -/
def escaped? : Char → Option Char
  | 'b' => some '\x08'
  | 't' => some '\t'
  | 'n' => some '\n'
  | 'f' => some '\x0c'
  | 'r' => some '\r'
  | '"' => some '"'
  | '\\' => some '\\'
  | _ => none

/-- Put a character in front of the text of a reader. -/
def put (c : Char) (r : Option (List Char × List Char)) : Option (List Char × List Char) :=
  r.map fun (s, rest) => (c :: s, rest)

/-- A text in double quotes, after the first of them. -/
def basic : Scan (List Char)
  | '"' :: rest => some ([], rest)
  | '\\' :: 'u' :: a :: b :: c :: d :: rest =>
    (charOf? [a, b, c, d]).bind fun x => put x (basic rest)
  | '\\' :: 'U' :: a :: b :: c :: d :: e :: f :: g :: h :: rest =>
    (charOf? [a, b, c, d, e, f, g, h]).bind fun x => put x (basic rest)
  | '\\' :: c :: rest => (escaped? c).bind fun x => put x (basic rest)
  | c :: rest => if isPlain c && c ≠ '\\' then put c (basic rest) else none
  | [] => none

/-- A text in single quotes, after the first of them. -/
def literal : Scan (List Char)
  | '\x27' :: rest => some ([], rest)
  | c :: rest => if isPlain c then put c (literal rest) else none
  | [] => none

/-- Where a reader of a long text stands. -/
inductive LongMode where
  /-- In the text. -/
  | inside
  /-- After a backslash that ends its line: only blanks may come before the end of the line. -/
  | lineEnd
  /-- After such a line: blanks and ends of lines are dropped. -/
  | dropping
  deriving DecidableEq

/-- Whether a backslash before these characters ends its line. -/
def endsLine (cs : List Char) : Bool :=
  match skipBlanks cs with
  | '\n' :: _ => true
  | '\r' :: '\n' :: _ => true
  | _ => false

/-- A text in three double quotes, after the first three. Up to two more quotes before the last three
belong to the text. -/
def longBasic : LongMode → Scan (List Char)
  | .dropping, '\n' :: rest => longBasic .dropping rest
  | .dropping, '\r' :: '\n' :: rest => longBasic .dropping rest
  | .dropping, ' ' :: rest => longBasic .dropping rest
  | .dropping, '\t' :: rest => longBasic .dropping rest
  | .lineEnd, '\n' :: rest => longBasic .dropping rest
  | .lineEnd, '\r' :: '\n' :: rest => longBasic .dropping rest
  | .lineEnd, c :: rest => if isBlank c then longBasic .lineEnd rest else none
  | _, '"' :: '"' :: '"' :: '"' :: '"' :: rest => some (['"', '"'], rest)
  | _, '"' :: '"' :: '"' :: '"' :: rest => some (['"'], rest)
  | _, '"' :: '"' :: '"' :: rest => some ([], rest)
  | _, '\n' :: rest => put '\n' (longBasic .inside rest)
  | _, '\r' :: '\n' :: rest => put '\n' (longBasic .inside rest)
  | _, '\\' :: 'u' :: a :: b :: c :: d :: rest =>
    (charOf? [a, b, c, d]).bind fun x => put x (longBasic .inside rest)
  | _, '\\' :: 'U' :: a :: b :: c :: d :: e :: f :: g :: h :: rest =>
    (charOf? [a, b, c, d, e, f, g, h]).bind fun x => put x (longBasic .inside rest)
  | _, '\\' :: c :: rest =>
    if endsLine (c :: rest) then longBasic .lineEnd (c :: rest)
    else (escaped? c).bind fun x => put x (longBasic .inside rest)
  | _, c :: rest => if isPlain c && c ≠ '\\' then put c (longBasic .inside rest) else none
  | _, [] => none

/-- A text in three single quotes, after the first three. Up to two more quotes before the last three
belong to the text. -/
def longLiteral : Scan (List Char)
  | '\x27' :: '\x27' :: '\x27' :: '\x27' :: '\x27' :: rest => some (['\x27', '\x27'], rest)
  | '\x27' :: '\x27' :: '\x27' :: '\x27' :: rest => some (['\x27'], rest)
  | '\x27' :: '\x27' :: '\x27' :: rest => some ([], rest)
  | '\n' :: rest => put '\n' (longLiteral rest)
  | '\r' :: '\n' :: rest => put '\n' (longLiteral rest)
  | c :: rest => if isPlain c then put c (longLiteral rest) else none
  | [] => none

/-- The characters after an end of line, if there is one at the beginning. -/
def dropLineEnd : List Char → List Char
  | '\n' :: rest => rest
  | '\r' :: '\n' :: rest => rest
  | cs => cs

/-- A text on one line, in quotes of either kind. -/
def shortText : Scan String
  | '"' :: rest => (basic rest).map fun (s, rest) => (String.ofList s, rest)
  | '\x27' :: rest => (literal rest).map fun (s, rest) => (String.ofList s, rest)
  | _ => none

/-- A text in any of its four forms. -/
def text : Scan String
  | '"' :: '"' :: '"' :: rest =>
    (longBasic .inside (dropLineEnd rest)).map fun (s, rest) => (String.ofList s, rest)
  | '\x27' :: '\x27' :: '\x27' :: rest =>
    (longLiteral (dropLineEnd rest)).map fun (s, rest) => (String.ofList s, rest)
  | cs => shortText cs

/-! ## (2) Numbers -/

/-- The digits of a run in which every underscore stands between two digits. -/
def digitRun? (isDigit : Char → Bool) : List Char → Option (List Char)
  | [] => none
  | [d] => if isDigit d then some [d] else none
  | d :: '_' :: rest => if isDigit d then (digitRun? isDigit rest).map (d :: ·) else none
  | d :: rest => if isDigit d then (digitRun? isDigit rest).map (d :: ·) else none

/-- The value of decimal digits. -/
def decimal (ds : List Char) : Nat := ds.foldl (fun n d => 10 * n + (d.toNat - 48)) 0

/-- A sign and the characters after it. -/
def sign : List Char → Bool × List Char
  | '-' :: rest => (true, rest)
  | '+' :: rest => (false, rest)
  | cs => (false, cs)

/-- The digits of a decimal integer: no zero in front of other digits. -/
def wholeDigits? (cs : List Char) : Option (List Char) :=
  match cs with
  | ['0'] => some ['0']
  | '0' :: _ => none
  | cs => digitRun? Char.isDigit cs

/-- An integer within 64 bits. -/
def inRange? (n : Int) : Option Int :=
  if -0x8000000000000000 ≤ n ∧ n < 0x8000000000000000 then some n else none

/-- Whether a character is a digit of the given base, of sixteen at most. -/
def isDigitOf (base : Nat) (c : Char) : Bool := (Hex.value? c).any (· < base)

/-- An unsigned integer of the given base, after its mark. -/
def based? (base : Nat) (cs : List Char) : Option Int := do
  let ds ← digitRun? (isDigitOf base) cs
  inRange? (ds.foldl (fun n d => base * n + (Hex.value? d).getD 0) 0 : Nat)

/-- An integer: decimal with an optional sign, or of base sixteen, eight or two with a mark. -/
def integer? : List Char → Option Int
  | '0' :: 'x' :: rest => based? 16 rest
  | '0' :: 'o' :: rest => based? 8 rest
  | '0' :: 'b' :: rest => based? 2 rest
  | cs => do
    let (negative, cs) := sign cs
    let n := decimal (← wholeDigits? cs)
    inRange? (if negative then -(n : Int) else n)

/-- The exponent after its mark, with an optional sign; zeros may come first. -/
def exponent? (cs : List Char) : Option Int := do
  let (negative, cs) := sign cs
  let n := decimal (← digitRun? Char.isDigit cs)
  return if negative then -(n : Int) else n

/-- A float: a whole part, then a fraction or an exponent or both. One that is too large is refused,
but for a negative one, which is infinite. -/
def float? (cs : List Char) : Option Double := do
  let (negative, cs) := sign cs
  if cs = ['i', 'n', 'f'] then return Double.infinity negative
  if cs = ['n', 'a', 'n'] then return Double.notANumber negative
  let isMark (c : Char) : Bool := c = 'e' || c = 'E'
  let mantissa := cs.takeWhile (!isMark ·)
  let e ← match cs.dropWhile (!isMark ·) with
    | [] => some 0
    | _ :: e => exponent? e
  let whole ← wholeDigits? (mantissa.takeWhile (· ≠ '.'))
  let fraction ← match mantissa.dropWhile (· ≠ '.') with
    -- with neither a fraction nor an exponent it is no float
    | [] => if mantissa.length < cs.length then some [] else none
    | _ :: f => digitRun? Char.isDigit f
  let d := Double.ofDecimal negative (decimal (whole ++ fraction)) (e - fraction.length)
  if d = Double.infinity false then none else return d

/-! ## (3) Dates and times -/

/-- Two digits that number at most `high`. -/
def twoDigits? (low high : Nat) : Scan Nat
  | a :: b :: rest =>
    let n := decimal [a, b]
    if a.isDigit && b.isDigit && low ≤ n && n ≤ high then some (n, rest) else none
  | _ => none

/-- The characters after the given one. -/
def expect (c : Char) : List Char → Option (List Char)
  | d :: rest => if c = d then some rest else none
  | [] => none

/-- A date that exists. -/
def date? : List Char → Option (List Char)
  | a :: b :: c :: d :: rest => do
    if [a, b, c, d].any (!Char.isDigit ·) then none
    let rest ← expect '-' rest
    let (month, rest) ← twoDigits? 1 12 rest
    let rest ← expect '-' rest
    let (day, rest) ← twoDigits? 1 31 rest
    if Calendar.isValidDate (decimal [a, b, c, d]) month day then some rest else none
  | _ => none

/-- A time of day, with seconds and an optional fraction of them. -/
def time? (cs : List Char) : Option (List Char) := do
  let (_, cs) ← twoDigits? 0 23 cs
  let cs ← expect ':' cs
  let (_, cs) ← twoDigits? 0 59 cs
  let cs ← expect ':' cs
  let (_, cs) ← twoDigits? 0 60 cs
  match cs with
  | '.' :: rest =>
    if (rest.head?.any Char.isDigit) then some (rest.dropWhile Char.isDigit) else none
  | cs => some cs

/-- Hours and minutes of an offset. -/
def offset? (cs : List Char) : Option (List Char) := do
  let (_, cs) ← twoDigits? 0 23 cs
  let cs ← expect ':' cs
  let (_, cs) ← twoDigits? 0 59 cs
  return cs

/-- What may follow a date and a time: nothing, or an offset. -/
def isOffset : List Char → Bool
  | [] => true
  | ['Z'] => true
  | ['z'] => true
  | c :: rest => (c = '+' || c = '-') && (offset? rest).any List.isEmpty

/-- Whether the characters are a date, a time of day, or a date and a time with an optional offset. -/
def isDatetime (cs : List Char) : Bool :=
  match date? cs with
  | some [] => true
  | some (c :: rest) => (c = 'T' || c = 't' || c = ' ') && (time? rest).any isOffset
  | none => (time? cs).any List.isEmpty

/-- The value of a bare run of characters. -/
def scalar? (cs : List Char) : Option Toml :=
  if cs = "true".toList then some (.boolean true)
  else if cs = "false".toList then some (.boolean false)
  else if isDatetime cs then some (.datetime (String.ofList cs))
  else
    match float? cs with
    | some d => some (.float d)
    | none => (integer? cs).map .integer

/-- Whether a character belongs to a bare run. -/
def isBare (c : Char) : Bool := c.isAlphanum || c = '_' || c = '-' || c = '+' || c = '.' || c = ':'

/-- A bare run. One blank between a date and a time belongs to it. -/
def bareRun (cs : List Char) : List Char × List Char :=
  let run := cs.takeWhile isBare
  match date? run, cs.dropWhile isBare with
  | some [], ' ' :: a :: b :: ':' :: rest =>
    if a.isDigit && b.isDigit then
      let more := a :: b :: ':' :: rest
      (run ++ ' ' :: more.takeWhile isBare, more.dropWhile isBare)
    else (run, cs.dropWhile isBare)
  | _, rest => (run, rest)

end Toml

end LayeredBundles
