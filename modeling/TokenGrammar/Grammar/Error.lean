/-
  TokenGrammar.Grammar.Error

  What can be wrong with the source of a grammar, and what to tell about it.
-/
import TokenGrammar.Report
import TokenGrammar.Text.Record
import TokenGrammar.Token.Basic

namespace TokenGrammar

/-- A reason why a source is not a grammar. -/
inductive GrammarFault where
  /-- A line begins with something else than the name of a rule. -/
  | expectedRuleName
  /-- No `:=` follows the name of a rule. -/
  | expectedDefine (name : String)
  /-- The quote that opens a literal is not closed on its line. -/
  | unterminatedLiteral (quote : Char)
  /-- There is nothing between the quotes of a literal. -/
  | emptyLiteral
  /-- The source ends within an alternation. -/
  | unclosedAlternation
  /-- A branch of an alternation has no elements. -/
  | emptyBranch (index : Nat)
  /-- A rule has no elements. -/
  | emptyRule (name : String)
  /-- The name of a rule belongs to an earlier rule. -/
  | redefinition (name : String) (previousLine : Nat)
  /-- An element has the same suffix twice. -/
  | duplicateModifier (suffix : Char)
  /-- A `$` follows an element that is not an alternation. -/
  | onceEachOutsideAlternation
  /-- No element begins here. -/
  | unexpectedToken
  deriving DecidableEq, Repr

/-- Why a source is not a grammar, and the token that shows it. -/
structure GrammarError where
  fault : GrammarFault
  offender : Token
  deriving DecidableEq, Repr

/-- What belongs to a fault: a single value without a label, or values with
    labels, or nothing. -/
inductive FaultDetail where
  | nothing
  | value (atom : Text.Atom)
  | fields (entries : List (String × Text.Atom))
  deriving DecidableEq, Repr

/-- The values that belong to a fault, in order. -/
def FaultDetail.atoms : FaultDetail → List Text.Atom
  | .nothing => []
  | .value atom => [atom]
  | .fields entries => entries.map (·.2)

/-- A fault's name and what belongs to it on one line. -/
def FaultDetail.record (name : String) : FaultDetail → String
  | .nothing => name
  | .value atom => Text.positional name [atom.shown]
  | .fields entries => Text.labelled name (entries.map fun entry => (entry.1, entry.2.shown))

namespace GrammarError

/-- The name of the kind of error. -/
def name (error : GrammarError) : String :=
  match error.fault with
  | .expectedRuleName => "ExpectedRuleName"
  | .expectedDefine .. => "ExpectedDefine"
  | .unterminatedLiteral .. => "UnterminatedLiteral"
  | .emptyLiteral => "EmptyLiteral"
  | .unclosedAlternation => "UnexpectedEndOfAlternation"
  | .emptyBranch .. => "EmptyBranch"
  | .emptyRule .. => "EmptyRule"
  | .redefinition .. => "Redefinition"
  | .duplicateModifier .. => "DuplicateModifier"
  | .onceEachOutsideAlternation => "OnceEachOutsideAlternation"
  | .unexpectedToken => "UnexpectedToken"

/-- What belongs to the error besides its place. -/
def detail (error : GrammarError) : FaultDetail :=
  match error.fault with
  | .expectedRuleName => .fields [("found", .text error.offender.shown)]
  | .expectedDefine name =>
    .fields [("name", .text name), ("found", .text error.offender.shown)]
  | .unterminatedLiteral quote => .fields [("quote", .char quote)]
  | .emptyLiteral => .nothing
  | .unclosedAlternation => .nothing
  | .emptyBranch index => .fields [("index", .number index)]
  | .emptyRule name => .fields [("name", .text name)]
  | .redefinition name previousLine =>
    .fields [("name", .text name), ("previous_line", .number previousLine)]
  | .duplicateModifier suffix => .value (.char suffix)
  | .onceEachOutsideAlternation => .nothing
  | .unexpectedToken => .fields [("found", .text error.offender.shown)]

/-- The error in one sentence. -/
def message (error : GrammarError) : String :=
  match error.fault with
  | .expectedRuleName => "expected a rule name but found " ++ error.offender.shown
  | .expectedDefine name =>
    "expected `:=` after the rule name `" ++ name ++ "` but found " ++ error.offender.shown
  | .unterminatedLiteral _ => "unterminated literal"
  | .emptyLiteral => "empty literal"
  | .unclosedAlternation => "unexpected end of alternation"
  | .emptyBranch _ => "empty alternative"
  | .emptyRule name => "rule `" ++ name ++ "` has no elements"
  | .redefinition name _ => "redefinition of rule `" ++ name ++ "`"
  | .duplicateModifier suffix => "duplicate modifier " ++ Text.quotedChar suffix
  | .onceEachOutsideAlternation => "`$` only applies to alternations"
  | .unexpectedToken => "unexpected " ++ error.offender.shown

/-- What to say at the place of the error. -/
def label (error : GrammarError) : String :=
  match error.fault with
  | .expectedRuleName => "a rule name should go here"
  | .expectedDefine _ => "expected `:=` here"
  | .unterminatedLiteral quote =>
    let shown := Text.quotedChar quote
    "this " ++ shown ++ " expects a " ++ shown ++
      " to close it on the same line, but there wasn't one"
  | .emptyLiteral => "an empty literal can never match a token"
  | .unclosedAlternation => "this `[` is never closed"
  | .emptyBranch index => "alternative " ++ toString index ++ " has nothing in it"
  | .emptyRule _ => "expected at least one element after `:=`"
  | .redefinition .. => "this name is already taken"
  | .duplicateModifier suffix => Text.quotedChar suffix ++ " was already applied here"
  | .onceEachOutsideAlternation => "this `$` has no `[ ... ]` before it"
  | .unexpectedToken => "this doesn't start an element"

/-- What may help to mend the error. -/
def note? (error : GrammarError) : Option String :=
  match error.fault with
  | .expectedRuleName => some "rules look like `name := element element ...`"
  | .expectedDefine name => some ("try `" ++ name ++ " := ...`")
  | .unterminatedLiteral quote => some ("try putting a " ++ Text.quotedChar quote ++ " at the end")
  | .emptyLiteral => none
  | .unclosedAlternation => some "try putting a `]` at the end"
  | .emptyBranch _ => some "make the whole alternation optional with `?` instead"
  | .emptyRule _ => none
  | .redefinition _ previousLine =>
    some ("it was first defined on line " ++ toString previousLine)
  | .duplicateModifier _ => some "each modifier may appear once per element"
  | .onceEachOutsideAlternation => none
  | .unexpectedToken => none

/-- The report of the error. -/
def report (error : GrammarError) : Report := ⟨error.message, error.label, error.note?⟩

/-- The error on one line, with the line and column of the offending token. -/
def record (error : GrammarError) : String :=
  Text.labelled "GrammarError"
    [("source", error.detail.record error.name), ("line", toString error.offender.line),
     ("column", toString error.offender.column)]

end GrammarError

end TokenGrammar
