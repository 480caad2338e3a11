import LayeredBundles.Bytes.Word
import LayeredBundles.Text.Utf8

/-! # Paths as bytes

To the system a path is bytes, any of them but zero. Here it is spelled by text, and a **charset** says which bytes the
characters stand for. Most paths are text themselves, in UTF-8. But not all are: where one is shown, or text is made of
it, whatever is no UTF-8 becomes replacement characters, and paths that differ can look the same.

* **`Charset`** — how paths are spelled;
* **`Charset.utf8`** — the charset of paths that are text, which is meant where no other one is given;
* **`Charset.bytewise`** — a charset in which every path can be spelled. -/

namespace LayeredBundles

/-- A **charset**: how paths are spelled. What its parts have to do with each other is said by `LawfulCharset`. -/
class Charset where
  /-- The bytes that a character stands for. -/
  bytes : Char → List UInt8
  /-- The length of a path, in bytes. -/
  size : String → Nat
  /-- The text that a path is shown as, its bytes read leniently as UTF-8. -/
  text : String → String
  /-- The path whose bytes are the given text in UTF-8. -/
  spell : String → String

namespace Charset

/-- The bytes of a path. -/
def encode [Charset] (path : String) : List UInt8 := path.toList.flatMap bytes

/-- The charset of paths that are text: each is spelled by itself. -/
instance (priority := low) utf8 : Charset := ⟨String.utf8EncodeChar, String.utf8ByteSize, id, id⟩

/-- The bytes of a character that stands for the byte of its code; beyond the last byte, for what it is in UTF-8. -/
def byteOf (c : Char) : List UInt8 := if c.toNat < 256 then [UInt8.ofNat c.toNat] else String.utf8EncodeChar c

/-- The charset of all paths: each byte is spelled by the character of its code. -/
@[reducible]
def bytewise : Charset where
  bytes := byteOf
  size path := (path.toList.flatMap byteOf).length
  text path := Utf8.lossy (Bytes.ofList (path.toList.flatMap byteOf))
  spell text := String.ofList ((text.toList.flatMap String.utf8EncodeChar).map fun b => Char.ofNat b.toNat)

end Charset

end LayeredBundles
