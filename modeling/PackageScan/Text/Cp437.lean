/-!
# Code page 437

The character set of entry names that are not marked as UTF-8. The lower half is ASCII.
-/

namespace PackageScan

namespace Cp437

/-- The characters of the upper half in the order of their codes. -/
def upperHalf : Array Char :=
  ("ÇüéâäàåçêëèïîìÄÅÉæÆôöòûùÿÖÜ¢£¥₧ƒáíóúñÑªº¿⌐¬½¼¡«»" ++
    "░▒▓│┤╡╢╖╕╣║╗╝╜╛┐└┴┬├─┼╞╟╚╔╩╦╠═╬╧╨╤╥╙╘╒╓╫╪┘┌█▄▌▐▀" ++
    "αßΓπΣσµτΦΘΩδ∞φε∩≡±≥≤⌠⌡÷≈°∙·√ⁿ²■\u00A0").toList.toArray

/-- The character of a code. -/
def charOf (b : UInt8) : Char :=
  if b < 128 then Char.ofNat b.toNat else upperHalf.getD (b.toNat - 128) '?'

/-- Bytes as text. -/
def decode (bytes : List UInt8) : String := String.ofList (bytes.map charOf)

end Cp437

end PackageScan
