import LayeredBundles.Json.Value
import LayeredBundles.Decimal.Shortest
import LayeredBundles.Text.Hex

/-! # Writing JSON

* **`Json.quote`** — a text in quotes: escapes for the quote, the backslash and control characters;
* **`Json.compact`** — a value on one line without blanks;
* **`Json.pretty`** — a value with one item or member a line, two blanks deeper inside. -/

namespace LayeredBundles

namespace Json

/-- How a character is written inside quotes. -/
def quoteChar (c : Char) : List Char :=
  if c = '"' then ['\\', '"']
  else if c = '\\' then ['\\', '\\']
  else if c = '\x08' then ['\\', 'b']
  else if c = '\x0c' then ['\\', 'f']
  else if c = '\n' then ['\\', 'n']
  else if c = '\r' then ['\\', 'r']
  else if c = '\t' then ['\\', 't']
  else if c < ' ' then ['\\', 'u', '0', '0', Hex.digit (c.toNat / 16), Hex.digit (c.toNat % 16)]
  else [c]

/-- A text in quotes. -/
def quote (s : String) : String := String.ofList ('"' :: (s.toList.flatMap quoteChar ++ ['"']))

/-- Doubles are positional up to seventeen digits and from five places after the point, and always
have a point or an exponent. -/
def floatFormat : FloatFormat := ⟨16, 4, "e"⟩

/-- A number: one that is not finite has no text, and null stands for it. -/
def Number.write : Number → String
  | .int n => toString n
  | .double d => if d.isFinite then floatFormat.write d else "null"

mutual

/-- A value on one line. -/
def compact : Json → String
  | .null => "null"
  | .bool b => if b then "true" else "false"
  | .number n => n.write
  | .string s => quote s
  | .array items => "[" ++ compactItems items ++ "]"
  | .object members => "\x7b" ++ compactMembers members ++ "\x7d"

/-- Items with commas between them. -/
def compactItems : List Json → String
  | [] => ""
  | [v] => compact v
  | v :: rest => compact v ++ "," ++ compactItems rest

/-- Members with commas between them. -/
def compactMembers : List (String × Json) → String
  | [] => ""
  | [(k, v)] => quote k ++ ":" ++ compact v
  | (k, v) :: rest => quote k ++ ":" ++ compact v ++ "," ++ compactMembers rest

end

/-- A new line, `depth` levels deep. -/
def newline (depth : Nat) : String := String.ofList ('\n' :: List.replicate (2 * depth) ' ')

mutual

/-- A value over several lines, its first line `depth` levels deep. -/
def prettyAt (depth : Nat) : Json → String
  | .array [] => "[]"
  | .array items => "[" ++ prettyItems (depth + 1) items ++ newline depth ++ "]"
  | .object [] => "\x7b\x7d"
  | .object members => "\x7b" ++ prettyMembers (depth + 1) members ++ newline depth ++ "\x7d"
  | .null => "null"
  | .bool b => if b then "true" else "false"
  | .number n => n.write
  | .string s => quote s

/-- Items, each on a new line. -/
def prettyItems (depth : Nat) : List Json → String
  | [] => ""
  | [v] => newline depth ++ prettyAt depth v
  | v :: rest => newline depth ++ prettyAt depth v ++ "," ++ prettyItems depth rest

/-- Members, each on a new line. -/
def prettyMembers (depth : Nat) : List (String × Json) → String
  | [] => ""
  | [(k, v)] => newline depth ++ quote k ++ ": " ++ prettyAt depth v
  | (k, v) :: rest =>
    newline depth ++ quote k ++ ": " ++ prettyAt depth v ++ "," ++ prettyMembers depth rest

end

/-- A value over several lines. -/
def pretty (v : Json) : String := prettyAt 0 v

end Json

end LayeredBundles
