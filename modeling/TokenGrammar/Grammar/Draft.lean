/-
  TokenGrammar.Grammar.Draft

  A grammar that is being read, token by token.  A draft holds the rules that
  are complete, and the place where reading stands: between rules, behind the
  name of a rule, or within a rule, where every alternation that is not closed
  yet keeps what was read before it.  Reading a token either leads to another
  place or shows that the source is not a grammar.  Since a draft is all that is
  known about the tokens before it, an error depends on nothing that follows it.
-/
import TokenGrammar.Grammar.Error
import TokenGrammar.Grammar.Literal
import TokenGrammar.Grammar.RuleTable
import TokenGrammar.Token.Stream

namespace TokenGrammar

-- ============================================================================
-- Suffixes
-- ============================================================================

/-- What may stand behind an element. -/
inductive Suffix where
  | optional
  | repeated
  | fatal
  | onceEach
  deriving DecidableEq, Repr

namespace Suffix

/-- All suffixes. -/
def all : List Suffix := [.optional, .repeated, .fatal, .onceEach]

/-- How a grammar writes the suffix. -/
def sign : Suffix → Char
  | .optional => '?'
  | .repeated => '*'
  | .fatal => '!'
  | .onceEach => '$'

/-- The suffix that a token writes. -/
def ofToken? (token : Token) : Option Suffix :=
  all.find? fun suffix => token.isSymbol (String.singleton suffix.sign)

end Suffix

namespace Node

/-- Whether an element has a suffix already.  Only an alternation may be taken
    once each. -/
def hasSuffix (node : Node) : Suffix → Except GrammarFault Bool
  | .optional => .ok node.modifiers.optional
  | .repeated => .ok node.modifiers.repeated
  | .fatal => .ok node.modifiers.fatal
  | .onceEach =>
    match node with
    | .alternation _ _ _ onceEach => .ok onceEach
    | _ => .error .onceEachOutsideAlternation

/-- The element with a suffix set. -/
def setSuffix (node : Node) : Suffix → Node
  | .optional => node.withModifiers { node.modifiers with optional := true }
  | .repeated => node.withModifiers { node.modifiers with repeated := true }
  | .fatal => node.withModifiers { node.modifiers with fatal := true }
  | .onceEach =>
    match node with
    | .alternation modifiers span branches _ => .alternation modifiers span branches true
    | _ => node

/-- The element with a suffix that the token behind it writes. -/
def addSuffix (node : Node) (suffix : Suffix) (token : Token) : Except GrammarError Node :=
  match node.hasSuffix suffix with
  | .error fault => .error ⟨fault, token⟩
  | .ok true => .error ⟨.duplicateModifier suffix.sign, token⟩
  | .ok false => .ok ((node.setSuffix suffix).withSpan (node.span.through token.span))

end Node

-- ============================================================================
-- Drafts
-- ============================================================================

/-- How an element begins: where, and whether it asks to be adjacent to what
    comes before it. -/
structure Opening where
  adjacent : Bool
  start : Nat
  deriving DecidableEq, Repr

/-- The modifiers of an element without suffixes. -/
def Opening.modifiers (opening : Opening) : Modifiers :=
  { Modifiers.plain with adjacent := opening.adjacent }

/-- An alternation whose closing bracket has not been read: how it begins, its
    complete branches from the last one back, and the elements before it in the
    sequence that it belongs to, likewise. -/
structure OpenAlternation where
  opening : Opening
  branches : List (List Node)
  before : List Node
  deriving Repr

/-- A rule that is not complete: its name and its `:=`, the alternations around
    the place where reading stands from the innermost outwards, and the elements
    read so far of the sequence there, from the last one back. -/
structure OpenRule where
  name : Token
  define : Token
  alternations : List OpenAlternation
  elements : List Node
  deriving Repr

/-- Where reading stands. -/
inductive Place where
  /-- The next thing is a rule. -/
  | betweenRules
  /-- A rule's name has been read. -/
  | afterName (name : Token)
  /-- The next thing is an element, something behind one, or the end of a
      sequence. -/
  | inSequence (rule : OpenRule)
  /-- A `~` has been read, so the next thing is an element. -/
  | afterTilde (rule : OpenRule) (opening : Opening)
  /-- The opening quote of a literal has been read. -/
  | afterQuote (rule : OpenRule) (opening : Opening) (quote : Token)
  /-- What stands between the quotes of a literal has been read. -/
  | afterPayload (rule : OpenRule) (opening : Opening) (quote payload : Token)
  deriving Repr

/-- The complete rules of a grammar, and where reading stands. -/
structure Draft where
  rules : RuleTable
  place : Place

namespace OpenRule

/-- The rule with one more element. -/
def add (rule : OpenRule) (node : Node) : OpenRule :=
  { rule with elements := node :: rule.elements }

/-- Whether the place is within an alternation, where line ends do not count. -/
def inAlternation (rule : OpenRule) : Bool := !rule.alternations.isEmpty

/-- The place behind one more element. -/
def withElement (rule : OpenRule) (node : Node) : Except GrammarError Place :=
  .ok (.inSequence (rule.add node))

end OpenRule

-- ============================================================================
-- Reading a token
-- ============================================================================

/-- The quotes of literals. -/
def literalQuotes : List Char := ['"', '\'']

/-- The quote that a token opens a literal with. -/
def openingQuote? (token : Token) : Option Char :=
  match token.cls, token.text.toList with
  | .symbol, c :: _ => if literalQuotes.contains c then some c else none
  | _, _ => none

/-- Whether a token can be the name of a rule. -/
def isRuleName (token : Token) : Bool :=
  token.cls == .identifier && !(token.text.toList.head?.any Char.isDigit)

namespace Place

/-- Whether a token may be stepped over at this place.  Within an alternation a
    line may end anywhere, and a literal has to be read as it stands. -/
def mayStepOver (place : Place) (token : Token) : Bool :=
  match place with
  | .betweenRules => token.isSkippable true
  | .afterName _ => token.isSkippable false
  | .inSequence rule => token.isSkippable rule.inAlternation
  | .afterTilde rule _ => token.isSkippable rule.inAlternation
  | .afterQuote .. => false
  | .afterPayload .. => false

/-- Read the token that an element begins with, behind its `~` if it has one. -/
def readElement (rule : OpenRule) (opening : Opening) (token : Token) :
    Except GrammarError Place :=
  if (openingQuote? token).isSome then .ok (.afterQuote rule opening token)
  else if token.isSymbol "[" then
    .ok (.inSequence
      { rule with
        alternations := ⟨opening, [], rule.elements⟩ :: rule.alternations
        elements := [] })
  else
    let span : Span := ⟨opening.start, token.span.stop⟩
    match token.cls with
    | .keyword =>
      match Category.ofTag? token.text with
      | some category =>
        rule.withElement (.terminal opening.modifiers span (.ofCategory category))
      | none => .error ⟨.unexpectedToken, token⟩
    | .identifier => rule.withElement (.ref opening.modifiers span token.text)
    | _ => .error ⟨.unexpectedToken, token⟩

/-- Read the first token of an element. -/
def beginElement (rule : OpenRule) (token : Token) : Except GrammarError Place :=
  if token.isSymbol "~" then .ok (.afterTilde rule ⟨true, token.span.start⟩)
  else readElement rule ⟨false, token.span.start⟩ token

/-- Read a token behind an element or at the beginning of a sequence, where the
    token does not end the sequence. -/
def continueSequence (rule : OpenRule) (token : Token) : Except GrammarError Place :=
  match rule.elements, Suffix.ofToken? token with
  | node :: before, some suffix => do
    let node ← node.addSuffix suffix token
    return .inSequence { rule with elements := node :: before }
  | _, _ => beginElement rule token

/-- Read a `|` or a `]` of the innermost alternation. -/
def endBranch (rule : OpenRule) (alternation : OpenAlternation)
    (outer : List OpenAlternation) (token : Token) : Except GrammarError Place :=
  if rule.elements.isEmpty then
    .error ⟨.emptyBranch alternation.branches.length, token⟩
  else
    let branches := rule.elements.reverse :: alternation.branches
    if token.text == "]" then
      let span : Span := ⟨alternation.opening.start, token.span.stop⟩
      let node := Node.alternation alternation.opening.modifiers span branches.reverse false
      .ok (.inSequence
        { rule with alternations := outer, elements := node :: alternation.before })
    else
      .ok (.inSequence
        { rule with
          alternations := { alternation with branches } :: outer
          elements := [] })

/-- Read what stands behind the opening quote of a literal. -/
def readPayload (rule : OpenRule) (opening : Opening) (quote token : Token) :
    Except GrammarError Place :=
  if token.isSymbol quote.text then .error ⟨.emptyLiteral, token⟩
  else if token.cls == .comment then .ok (.afterPayload rule opening quote token)
  else .error ⟨.unterminatedLiteral ((openingQuote? quote).getD '"'), quote⟩

/-- Read what stands behind the text of a literal. -/
def closeLiteral (rule : OpenRule) (opening : Opening) (quote payload token : Token) :
    Except GrammarError Place :=
  if token.isSymbol quote.text then
    let text := String.ofList (unescape payload.text.toList)
    rule.withElement
      (.terminal opening.modifiers ⟨opening.start, token.span.stop⟩ (.literal text))
  else .error ⟨.unterminatedLiteral ((openingQuote? quote).getD '"'), quote⟩

end Place

namespace Draft

/-- A draft of which nothing has been read. -/
def blank : Draft := ⟨.empty, .betweenRules⟩

/-- The line of the first token of some tokens that begins at a byte offset. -/
def lineAt (tokens : List Token) (start : Nat) : Nat :=
  match tokens.find? (·.span.start == start) with
  | some token => token.line
  | none => 0

/-- The draft with a rule that ends here, if the rule has elements and its name
    is free.  `tokens` are those of the whole source, to look up the line of an
    earlier rule. -/
def endRule (tokens : List Token) (draft : Draft) (rule : OpenRule) :
    Except GrammarError Draft :=
  match rule.elements with
  | [] => .error ⟨.emptyRule rule.name.text, rule.define⟩
  | lastNode :: _ =>
    let span : Span := ⟨rule.name.span.start, lastNode.span.stop⟩
    match draft.rules.insert ⟨rule.name.text, rule.elements.reverse, span⟩ with
    | .ok (_, rules) => .ok ⟨rules, .betweenRules⟩
    | .error id =>
      let start := ((draft.rules.rule? id).map (·.span.start)).getD 0
      .error ⟨.redefinition rule.name.text (lineAt tokens start), rule.name⟩

/-- Read a token that may not be stepped over. -/
def readToken (tokens : List Token) (draft : Draft) (token : Token) :
    Except GrammarError Draft :=
  let moveTo : Except GrammarError Place → Except GrammarError Draft :=
    Except.map (Draft.mk draft.rules)
  match draft.place with
  | .betweenRules =>
    if token.cls == .ending then .ok draft
    else if isRuleName token then .ok ⟨draft.rules, .afterName token⟩
    else .error ⟨.expectedRuleName, token⟩
  | .afterName name =>
    if token.isSymbol ":=" then .ok ⟨draft.rules, .inSequence ⟨name, token, [], []⟩⟩
    else .error ⟨.expectedDefine name.text, token⟩
  | .inSequence rule =>
    match rule.alternations with
    | [] =>
      if token.cls == .line || token.cls == .ending then endRule tokens draft rule
      else moveTo (Place.continueSequence rule token)
    | alternation :: outer =>
      if token.isSymbol "|" || token.isSymbol "]" then
        moveTo (Place.endBranch rule alternation outer token)
      else if token.cls == .ending then .error ⟨.unclosedAlternation, token⟩
      else moveTo (Place.continueSequence rule token)
  | .afterTilde rule opening => moveTo (Place.readElement rule opening token)
  | .afterQuote rule opening quote => moveTo (Place.readPayload rule opening quote token)
  | .afterPayload rule opening quote payload =>
    moveTo (Place.closeLiteral rule opening quote payload token)

/-- Read the next token of a source. -/
def read (tokens : List Token) (draft : Draft) (token : Token) : Except GrammarError Draft :=
  if draft.place.mayStepOver token then .ok draft else readToken tokens draft token

/-- Read all of some tokens. -/
def readAll (tokens : List Token) (draft : Draft) (rest : List Token) :
    Except GrammarError Draft :=
  rest.foldlM (read tokens) draft

end Draft

/-- The rules that the tokens of a grammar's source define. -/
def RuleTable.ofTokens (stream : TokenStream) : Except GrammarError RuleTable :=
  (Draft.blank.readAll stream.toList stream.toList).map Draft.rules

end TokenGrammar
