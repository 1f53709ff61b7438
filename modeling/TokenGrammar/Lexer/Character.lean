/-
  TokenGrammar.Lexer.Character

  The classes of characters that lexing goes by.
-/
import TokenGrammar.Unicode.WhiteSpace

namespace TokenGrammar

/-- Letters, digits and the underscore make up words.  Words are ASCII only. -/
def isWord (c : Char) : Bool := c.isAlphanum || c == '_'

/-- White space within a line.  A carriage return counts as such, wherever it
    is not part of a line end. -/
def isBlank (c : Char) : Bool := c == '\r' || (c != '\n' && Unicode.isWhiteSpace c)

/-- The characters that a string or a comment cannot run over. -/
def isLineBreak (c : Char) : Bool := c == '\n' || c == '\r'

end TokenGrammar
