/-! # Code page 437

* **`CodePage437.decode`** — the text of bytes in the code page of the first personal computers. -/

namespace LayeredBundles

namespace CodePage437

/-- The characters of the bytes from 128 on. -/
def upper : String :=
  "ÇüéâäàåçêëèïîìÄÅÉæÆôöòûùÿÖÜ¢£¥₧ƒáíóúñÑªº¿⌐¬½¼¡«»░▒▓│┤╡╢╖╕╣║╗╝╜╛┐└┴┬├─┼╞╟╚╔╩╦╠═╬╧╨╤╥╙╘╒╓╫╪┘┌█▄▌▐▀αßΓπΣσµτΦΘΩδ∞φε∩≡±≥≤⌠⌡÷≈°∙·√ⁿ²■\u00a0"

/-- The characters of the bytes from 128 on, by position. -/
def table : Array Char := upper.toList.toArray

/-- The character of a byte. -/
def char (b : UInt8) : Char :=
  if b < 128 then Char.ofNat b.toNat else table.getD (b.toNat - 128) '?'

/-- The text of some bytes. -/
def decode (d : ByteArray) : String := String.ofList (d.toList.map char)

end CodePage437

end LayeredBundles
