/-
  TokenGrammar.Token.Basic

  Tokens: what class a piece of text belongs to, and where it stands.
-/
import TokenGrammar.Span

namespace TokenGrammar

/-- What a token is.  Lexing a text yields neither integers, nor numbers, nor
    strings: those are made of one or more tokens when an element of a grammar
    matches them. -/
inductive TokenClass where
  | beginning
  | keyword
  | symbol
  | identifier
  | integer
  | number
  | string
  | line
  | space
  | comment
  | ending
  deriving DecidableEq, Repr, Inhabited

namespace TokenClass

/-- The class in words. -/
def name : TokenClass → String
  | .beginning => "beginning of input"
  | .keyword => "keyword"
  | .symbol => "symbol"
  | .identifier => "identifier"
  | .integer => "integer"
  | .number => "number"
  | .string => "string"
  | .line => "end of line"
  | .space => "whitespace"
  | .comment => "comment"
  | .ending => "end of input"

end TokenClass

/-- A piece of a text: its class, the text itself and where it begins.  Lines
    and columns count from one, and columns count characters. -/
structure Token where
  cls : TokenClass
  text : String
  span : Span
  line : Nat
  column : Nat
  deriving DecidableEq, Repr, Inhabited

namespace Token

/-- Whether a reader may step over the token without looking at it.  A line end
    may be stepped over only by a reader that does not care about lines. -/
def isSkippable (skipLines : Bool) (token : Token) : Bool :=
  match token.cls with
  | .beginning | .space | .comment => true
  | .line => skipLines
  | _ => false

/-- Whether the token is the symbol `text`. -/
def isSymbol (token : Token) (text : String) : Bool :=
  token.cls == .symbol && token.text == text

/-- The token as messages show it: its text between backticks, or the name of
    its class if its text says nothing. -/
def shown (token : Token) : String :=
  match token.cls with
  | .beginning | .ending | .line => token.cls.name
  | _ => "`" ++ token.text ++ "`"

end Token

end TokenGrammar
