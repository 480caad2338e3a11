import LayeredBundles.Text.Hex

/-! # Quoted text in messages

* **`Text.quoted`** — a text in double quotes, as messages show it: control characters are escaped, and so
  are the quote and the backslash. -/

namespace LayeredBundles

namespace Text

/-- Whether a character is a control character. -/
def isControl (c : Char) : Bool := c < ' ' || ('\x7f' ≤ c && c ≤ '\u009f')

/-- How a character is shown in quotes. -/
def quotedChar (c : Char) : List Char :=
  if c = '"' then ['\\', '"']
  else if c = '\\' then ['\\', '\\']
  else if c = '\n' then ['\\', 'n']
  else if c = '\r' then ['\\', 'r']
  else if c = '\t' then ['\\', 't']
  else if c = '\x00' then ['\\', '0']
  else if isControl c then "\\u\x7b".toList ++ (Hex.write c.toNat).toList ++ "\x7d".toList
  else [c]

/-- A text in double quotes. -/
def quoted (s : String) : String := String.ofList ('"' :: (s.toList.flatMap quotedChar ++ ['"']))

end Text

end LayeredBundles
