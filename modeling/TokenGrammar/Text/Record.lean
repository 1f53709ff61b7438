/-
  TokenGrammar.Text.Record

  Values on one line: a name, and behind it the parts of the value, in braces
  with their labels or in parentheses without.
-/
import TokenGrammar.Text.Quoted

namespace TokenGrammar.Text

/-- A simple part of a value. -/
inductive Atom where
  | text (value : String)
  | char (value : Char)
  | number (value : Nat)
  deriving DecidableEq, Repr

/-- Texts and characters are quoted, numbers are not. -/
def Atom.shown : Atom → String
  | .text value => quoted value
  | .char value => quotedChar value
  | .number value => toString value

/-- The name, and the parts with their labels in braces behind it. -/
def labelled (name : String) (parts : List (String × String)) : String :=
  let shown := parts.map fun part => part.1 ++ ": " ++ part.2
  name ++ " \x7b " ++ ", ".intercalate shown ++ " \x7d"

/-- The name, and the parts in parentheses behind it. -/
def positional (name : String) (parts : List String) : String :=
  name ++ "(" ++ ", ".intercalate parts ++ ")"

end TokenGrammar.Text
