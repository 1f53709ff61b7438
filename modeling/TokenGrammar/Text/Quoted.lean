/-
  TokenGrammar.Text.Quoted

  Texts and characters as they are quoted in messages: between delimiters, with
  everything that would not show as itself written as an escape.
-/
import TokenGrammar.Unicode.Printable

namespace TokenGrammar.Text

/-- A code point in hexadecimal: `\u`, then lower-case digits without leading
    zeros between braces. -/
def codePointEscape (c : Char) : List Char :=
  '\\' :: 'u' :: '\x7b' :: (Nat.toDigits 16 c.toNat ++ ['\x7d'])

/-- One character of a quoted text.  The delimiter and the backslash are
    escaped, four controls have names of their own, and every other character
    that does not show as itself is given by its code point. -/
def escapeChar (delimiter c : Char) : List Char :=
  if c = '\x00' then ['\\', '0']
  else if c = '\t' then ['\\', 't']
  else if c = '\r' then ['\\', 'r']
  else if c = '\n' then ['\\', 'n']
  else if c = '\\' || c = delimiter then ['\\', c]
  else if Unicode.isPrintable c then [c]
  else codePointEscape c

/-- The characters between a pair of delimiters, escaped. -/
def quotedBetween (delimiter : Char) (cs : List Char) : List Char :=
  delimiter :: (cs.flatMap (escapeChar delimiter) ++ [delimiter])

/-- A text in double quotes. -/
def quoted (text : String) : String :=
  String.ofList (quotedBetween '"' text.toList)

/-- A character in single quotes. -/
def quotedChar (c : Char) : String :=
  String.ofList (quotedBetween '\'' [c])

end TokenGrammar.Text
