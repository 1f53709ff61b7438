/-
  TokenGrammar.Match.Failure

  Why an element of a grammar does not match, and why a run stops before its
  time.
-/
import TokenGrammar.Grammar.RuleTable
import TokenGrammar.Match.Event

namespace TokenGrammar

-- ============================================================================
-- Terminals
-- ============================================================================

/-- The base of a number. -/
inductive NumberBase where
  | decimal
  | hex
  deriving DecidableEq, Repr

/-- The name of a base. -/
def NumberBase.name : NumberBase → String
  | .decimal => "decimal"
  | .hex => "hex"

/-- A run of digits in a number. -/
inductive NumberPart where
  | integer
  | fraction
  deriving DecidableEq, Repr

/-- A part of a number in words. -/
def NumberPart.description : NumberPart → String
  | .integer => "the integer part"
  | .fraction => "the fractional part"

/-- What a token was expected to be. -/
inductive Expectation where
  | terminal (terminal : Terminal)
  | fractionDigits
  | exponentDigits
  deriving DecidableEq, Repr

/-- An expectation in words. -/
def Expectation.description : Expectation → String
  | .terminal (.literal text) => "`" ++ text ++ "`"
  | .terminal (.ofCategory category) => category.description
  | .fractionDigits => "digits after `.`"
  | .exponentDigits => "exponent digits"

/-- Why a terminal does not match. -/
inductive Mismatch where
  /-- A token is not what was expected there. -/
  | expected (what : Expectation) (found : Token)
  /-- A character is no digit of the number's base. -/
  | invalidDigit (digit : Char) (part : NumberPart) (base : NumberBase)
  /-- A part of a number has no digits. -/
  | noDigits (part : NumberPart) (base : NumberBase)
  /-- A hexadecimal number has a fraction but no exponent. -/
  | missingHexExponent
  /-- A number goes on with another point behind its fraction. -/
  | secondPoint
  /-- What follows the exponent marker is not made of digits. -/
  | invalidExponent (text : String)
  /-- A number goes on with a point behind its exponent. -/
  | pointAfterExponent
  /-- The quote that opens a string does not close it. -/
  | unterminatedString (quote : String)
  deriving DecidableEq, Repr

/-- The reason in words. -/
def Mismatch.message : Mismatch → String
  | .expected what found => "expected " ++ what.description ++ " but found " ++ found.shown
  | .invalidDigit digit part base =>
    "invalid digit `" ++ String.singleton digit ++ "` in " ++ part.description ++ " of a " ++
      base.name ++ " number"
  | .noDigits part base => "expected " ++ base.name ++ " digits in " ++ part.description
  | .missingHexExponent =>
    "invalid hex float format: expected a `p` exponent after the fractional part"
  | .secondPoint => "unexpected second `.` in number"
  | .invalidExponent text => "invalid exponent `" ++ text ++ "`"
  | .pointAfterExponent => "unexpected `.` after the exponent"
  | .unterminatedString quote =>
    "unterminated string, expected a closing `" ++ quote ++ "`"

/-- Why a terminal does not match, and the position of the token that shows
    it. -/
structure Miss where
  position : Nat
  mismatch : Mismatch
  deriving DecidableEq, Repr

-- ============================================================================
-- Elements
-- ============================================================================

/-- An event that a listener did not accept, and the listener's reason if it
    gave one. -/
structure Refusal where
  event : Event
  reason : Option String
  deriving DecidableEq, Repr

/-- The reason in words, where `consequence` says what the refusal led to. -/
def Refusal.message (consequence : String) (refusal : Refusal) : String :=
  refusal.reason.getD (refusal.event.description ++ " " ++ consequence)

/-- Why an element does not match. -/
inductive Failure where
  /-- A terminal does not match the input. -/
  | mismatch (cause : Mismatch)
  /-- A listener rejected the element. -/
  | rejected (refusal : Refusal)
  /-- An alternation has no branches. -/
  | emptyAlternation
  /-- No branch of an alternation matches, each for a reason of its own. -/
  | noAlternative (failures : List Failure)
  /-- The first branch to match has been taken before and may be taken only
      once. -/
  | alreadySet (index : Nat)
  deriving Repr

namespace Failure

mutual

/-- The reason in words. -/
def message : Failure → String
  | .mismatch cause => cause.message
  | .rejected refusal => refusal.message "was rejected"
  | .emptyAlternation => "empty alternation"
  | .noAlternative failures =>
    "no alternative matched:\n" ++ "\n".intercalate (numberedMessages 0 failures)
  | .alreadySet index => "alternative index " ++ toString index ++ " is already set"

/-- The reasons of branches that follow each other, each with the number of its
    branch, where the first branch has the number `index`. -/
def numberedMessages (index : Nat) : List Failure → List String
  | [] => []
  | failure :: rest =>
    ("[" ++ toString index ++ "] " ++ failure.message) :: numberedMessages (index + 1) rest

end

end Failure

-- ============================================================================
-- Runs
-- ============================================================================

/-- Why a run stops before its time. -/
inductive Abort where
  /-- There is no rule to begin with. -/
  | noRoot
  /-- An element refers to a rule that does not exist. -/
  | undefinedRule (name : String)
  /-- More rules and alternations would be open at once than the limit allows. -/
  | recursionLimit (limit : Nat)
  /-- A repeated element matched without any input, and would do so forever. -/
  | emptyRepetition (node : Node)
  /-- A fatal element does not match. -/
  | fatalElement (failure : Failure)
  /-- A listener stopped the run. -/
  | stopped (refusal : Refusal)
  /-- No element waits for the rule or alternation that has ended. -/
  | noElement
  deriving Repr

/-- The reason in words. -/
def Abort.message : Abort → String
  | .noRoot => "the grammar has no `" ++ rootName ++ "` rule"
  | .undefinedRule name => "undefined rule `" ++ name ++ "`"
  | .recursionLimit limit => "recursion limit of " ++ toString limit ++ " exceeded"
  | .emptyRepetition node => "`" ++ node.shown ++ "` repeats without consuming any input"
  | .fatalElement failure => failure.message
  | .stopped refusal => refusal.message "aborted the match"
  | .noElement => "no element under the cursor"

end TokenGrammar
