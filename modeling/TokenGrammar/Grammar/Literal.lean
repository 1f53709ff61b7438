/-
  TokenGrammar.Grammar.Literal

  How literals are written, and what kind of word each of them is.
-/
import TokenGrammar.Lexer.Basic
import TokenGrammar.Unicode.Alphanumeric
import TokenGrammar.Unicode.WhiteSpace

namespace TokenGrammar

/-- The text that a literal stands for.  A backslash before `n` or `t` stands
    for a line feed or a tab, and before any other character for that character
    itself; one that ends the text stands for itself. -/
def unescape : List Char → List Char
  | [] => []
  | ['\\'] => ['\\']
  | '\\' :: 'n' :: rest => '\n' :: unescape rest
  | '\\' :: 't' :: rest => '\t' :: unescape rest
  | '\\' :: c :: rest => c :: unescape rest
  | c :: rest => c :: unescape rest

/-- Whether a character is punctuation: neither a letter nor a digit, neither
    white space nor a control character, nor the underscore. -/
def isPunctuation (c : Char) : Bool :=
  !Unicode.isAlphanumeric c && !Unicode.isWhiteSpace c && !Unicode.isControl c && c != '_'

/-- Whether a literal is a symbol of the language.  Any other literal is one of
    its keywords. -/
def isSymbolic (text : String) : Bool := text.toList.all isPunctuation

/-- The symbols among some literals, longest first. -/
def symbolicWords (literals : List String) : List String :=
  sortLongestFirst (literals.filter isSymbolic)

/-- The other literals, longest first. -/
def keywordWords (literals : List String) : List String :=
  sortLongestFirst (literals.filter (!isSymbolic ·))

end TokenGrammar
