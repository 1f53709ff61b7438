/-
  TokenGrammar.Lexer.Tokenize

  The token stream of a text.  Lexemes say what the tokens are; a cursor that
  runs along with them says where they stand.
-/
import TokenGrammar.Lexer.Lexeme
import TokenGrammar.Token.Stream

namespace TokenGrammar

/-- How many bytes some characters take up. -/
def byteLength (cs : List Char) : Nat := cs.foldr (fun c length => c.utf8Size + length) 0

/-- A place in a text: its byte offset, and its line and column, which count
    from one. -/
structure Cursor where
  offset : Nat
  line : Nat
  column : Nat
  deriving DecidableEq, Repr

namespace Cursor

/-- The beginning of a text. -/
def beginning : Cursor := ⟨0, 1, 1⟩

/-- The place behind a lexeme. -/
def after (cursor : Cursor) (lexeme : Lexeme) : Cursor where
  offset := cursor.offset + byteLength lexeme.text
  line := if lexeme.endsLine then cursor.line + 1 else cursor.line
  column := if lexeme.endsLine then 1 else cursor.column + lexeme.text.length

/-- The token of a lexeme that stands at this place. -/
def token (cursor : Cursor) (lexeme : Lexeme) : Token where
  cls := lexeme.cls
  text := String.ofList lexeme.text
  span := ⟨cursor.offset, cursor.offset + byteLength lexeme.text⟩
  line := cursor.line
  column := cursor.column

/-- An empty token at this place. -/
def mark (cursor : Cursor) (cls : TokenClass) : Token where
  cls := cls
  text := ""
  span := ⟨cursor.offset, cursor.offset⟩
  line := cursor.line
  column := cursor.column

/-- The tokens of lexemes that follow each other from this place on. -/
def place (cursor : Cursor) : List Lexeme → List Token
  | [] => []
  | lexeme :: rest => cursor.token lexeme :: (cursor.after lexeme).place rest

/-- The place behind all of some lexemes. -/
def afterAll (cursor : Cursor) (lexemes : List Lexeme) : Cursor := lexemes.foldl after cursor

end Cursor

/-- The tokens of a text between the marks at its beginning and its end.  This
    never fails: what the lexer does not know becomes symbols of one character,
    and it is for the reader of the tokens to complain. -/
def Lexer.tokenize (lexer : Lexer) (text : String) : TokenStream :=
  let lexemes := lexer.lexemes text.toList
  { tokens := (Cursor.beginning.mark .beginning :: Cursor.beginning.place lexemes).toArray
    ending := (Cursor.beginning.afterAll lexemes).mark .ending }

end TokenGrammar
