/-
  TokenGrammar.Match.Terminal

  Matching a terminal at a reader.  On a match the reader stands behind what was
  matched.  Main statement: matching stays within one token stream
  (`Terminal.stream_of_matchAt`).
-/
import TokenGrammar.Lexer.Basic
import TokenGrammar.Match.Number

namespace TokenGrammar

/-- Whether a text is one of the quotes of strings. -/
def isStringQuote (text : String) : Bool :=
  match text.toList with
  | [c] => defaultQuotes.contains c
  | _ => false

/-- Match a string: an opening quote, whatever the string holds, and the same
    quote again, with nothing in between. -/
def matchString (adjacent : Bool) (reader : Reader) : Except Miss (Matched × Reader) :=
  let first := reader.next adjacent
  let quote := first.token
  if quote.cls == .symbol && isStringQuote quote.text then
    let payload := first.after.peekAdjacent
    let (text, behind) :=
      if payload.cls == .comment then (payload.text, first.after.consume)
      else ("", first.after)
    let close := behind.peekAdjacent
    if close.isSymbol quote.text then
      .ok (⟨.string, text, quote.span.through close.span, first.position⟩, behind.consume)
    else .error ⟨behind.position, .unterminatedString quote.text⟩
  else .error ⟨first.position, .expected (.terminal (.ofCategory .string)) quote⟩

namespace Terminal

/-- Whether a single token is what the terminal asks for.  Numbers and strings
    are made of several tokens. -/
def holds (terminal : Terminal) (token : Token) : Bool :=
  match terminal with
  | .literal text =>
    (token.cls == .symbol || token.cls == .keyword || token.cls == .identifier) &&
      token.text == text
  | .ofCategory .identifier =>
    token.cls == .identifier && !(token.text.toList.head?.any Char.isDigit)
  | .ofCategory .integer => isInteger token
  | .ofCategory .keyword => token.cls == .keyword
  | .ofCategory .symbol => token.cls == .symbol
  | .ofCategory .endOfInput => token.cls == .ending
  | .ofCategory .endOfLine => token.cls == .line
  | .ofCategory .number => false
  | .ofCategory .string => false

/-- The class of a matched token.  A token does not know that it is an
    integer. -/
def classOf (terminal : Terminal) (token : Token) : TokenClass :=
  match terminal with
  | .ofCategory .integer => .integer
  | _ => token.cls

/-- Match a terminal that is a single token. -/
def matchSingle (terminal : Terminal) (adjacent : Bool) (reader : Reader) :
    Except Miss (Matched × Reader) :=
  let next := reader.next adjacent
  let token := next.token
  if terminal.holds token then
    .ok (⟨terminal.classOf token, token.text, token.span, next.position⟩, next.after)
  else .error ⟨next.position, .expected (.terminal terminal) token⟩

/-- Match a terminal, either at the very next token or at the next significant
    one. -/
def matchAt (terminal : Terminal) (adjacent : Bool) (reader : Reader) :
    Except Miss (Matched × Reader) :=
  match terminal with
  | .ofCategory .number => matchNumber adjacent reader
  | .ofCategory .string => matchString adjacent reader
  | _ => terminal.matchSingle adjacent reader

/-! ## The stream stays the same -/

theorem stream_of_matchSingle {terminal : Terminal} {adjacent : Bool} {reader behind : Reader}
    {matched : Matched} (h : terminal.matchSingle adjacent reader = .ok (matched, behind)) :
    behind.stream = reader.stream := by
  unfold matchSingle at h
  dsimp only at h
  split at h
  · cases h
    simp
  · cases h

theorem stream_of_matchString {adjacent : Bool} {reader behind : Reader} {matched : Matched}
    (h : matchString adjacent reader = .ok (matched, behind)) :
    behind.stream = reader.stream := by
  unfold matchString at h
  dsimp only at h
  split at h
  · split at h <;> split at h <;> cases h <;> simp
  · cases h

/-- Matching a terminal stays within the token stream of the reader. -/
theorem stream_of_matchAt {terminal : Terminal} {adjacent : Bool} {reader behind : Reader}
    {matched : Matched} (h : terminal.matchAt adjacent reader = .ok (matched, behind)) :
    behind.stream = reader.stream := by
  unfold matchAt at h
  split at h
  · exact stream_of_matchNumber h
  · exact stream_of_matchString h
  · exact stream_of_matchSingle h

end Terminal

end TokenGrammar
