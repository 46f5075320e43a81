import PackageScan.Limits

/-!
# Clamping messages

A message that is too long is cut to its longest prefix that fits. The cut is found by stepping
back from the limit to the nearest place between two characters; since a character has at most
four bytes, that takes at most three steps.
-/

namespace PackageScan

namespace Message

/-- Is the byte offset a place between two characters, or an end of the text? -/
def isBoundary : List Char → Nat → Bool
  | _, 0 => true
  | [], _ + 1 => false
  | c :: cs, n + 1 => c.utf8Size ≤ n + 1 && isBoundary cs (n + 1 - c.utf8Size)

/-- The last boundary at or before a byte offset. -/
def lastBoundary (cs : List Char) : Nat → Nat
  | 0 => 0
  | n + 1 => if isBoundary cs (n + 1) then n + 1 else lastBoundary cs n

/-- The longest prefix of at most the given number of bytes. -/
def takeBytes : List Char → Nat → List Char
  | [], _ => []
  | c :: cs, n => if c.utf8Size ≤ n then c :: takeBytes cs (n - c.utf8Size) else []

/-- The message itself if it fits, else its prefix up to the last boundary within the limit. -/
def clamp (message : String) : String :=
  if message.utf8ByteSize ≤ Limits.logMessage then message
  else
    let cs := message.toList
    String.ofList (takeBytes cs (lastBoundary cs Limits.logMessage))

end Message

end PackageScan
