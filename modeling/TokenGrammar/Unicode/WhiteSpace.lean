/-
  TokenGrammar.Unicode.WhiteSpace

  The characters with the Unicode property White_Space, and the control
  characters (general category Cc).
-/
import TokenGrammar.Unicode.Ranges

namespace TokenGrammar.Unicode

/-- The code points with property White_Space. -/
def whiteSpaceRanges : Ranges :=
  [(0x9, 0xD), (0x20, 0x20), (0x85, 0x85), (0xA0, 0xA0), (0x1680, 0x1680), (0x2000, 0x200A),
   (0x2028, 0x2029), (0x202F, 0x202F), (0x205F, 0x205F), (0x3000, 0x3000)]

/-- Whether a character is white space. -/
def isWhiteSpace (c : Char) : Bool := whiteSpaceRanges.covers c.toNat

/-- The code points of general category Cc. -/
def controlRanges : Ranges :=
  [(0x0, 0x1F), (0x7F, 0x9F)]

/-- Whether a character is a control character. -/
def isControl (c : Char) : Bool := controlRanges.covers c.toNat

end TokenGrammar.Unicode
