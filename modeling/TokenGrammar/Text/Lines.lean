/-
  TokenGrammar.Text.Lines

  A text as the list of its lines.  A line ends at a line feed, and a carriage
  return directly before the line feed belongs to the line end.
-/

namespace TokenGrammar.Text

/-- A line from its last character back, without the carriage return that ends
    it, if one does. -/
def withoutReturn : List Char → List Char
  | '\r' :: line => line
  | line => line

/-- The lines of what follows, where the characters `started` of the first of
    them, from the last one back, have been read already. -/
def linesFrom (started : List Char) : List Char → List (List Char)
  | [] => if started.isEmpty then [] else [started.reverse]
  | c :: rest =>
    if c = '\n' then (withoutReturn started).reverse :: linesFrom [] rest
    else linesFrom (c :: started) rest

/-- The lines of a text.  What follows the last line feed is a line of its own
    only if it is not empty. -/
def lines (text : String) : List String :=
  (linesFrom [] text.toList).map String.ofList

end TokenGrammar.Text
