/-
  TokenGrammar.Match.Diagnostic

  What to tell about a match that failed.  A run tries many things that fail,
  and the last failure is rarely the one that matters.  So each failure is
  offered, and only the first of those that lie furthest into the input is
  kept.
-/
import TokenGrammar.Report
import TokenGrammar.Span
import TokenGrammar.Text.Lines
import TokenGrammar.Token.Stream

namespace TokenGrammar

-- ============================================================================
-- The furthest failure
-- ============================================================================

/-- A failure of a run: the position of the token that shows it, its cause, and
    the innermost rule that was being matched. -/
structure Reach (α : Type) where
  position : Nat
  cause : α
  rule : String
  deriving DecidableEq, Repr

namespace Reach

variable {α : Type}

/-- Whether a failure lies further into the input than the one that is kept, if
    one is. -/
def isFurther (candidate : Reach α) : Option (Reach α) → Bool
  | none => true
  | some kept => decide (kept.position < candidate.position)

/-- The failure to keep, when another one is offered. -/
def offer (kept : Option (Reach α)) (candidate : Reach α) : Option (Reach α) :=
  if candidate.isFurther kept then some candidate else kept

end Reach

-- ============================================================================
-- Diagnostics
-- ============================================================================

/-- An explanation of a failed match: the token that it points at, the message,
    the innermost rule, and in the notes what the alternatives that were tried
    had to say. -/
structure Diagnostic where
  position : Nat
  span : Span
  line : Nat
  column : Nat
  message : String
  rule : String
  notes : List String
  deriving DecidableEq, Repr

namespace Diagnostic

/-- A diagnostic that points at a token, without notes. -/
def atToken (stream : TokenStream) (position : Nat) (message rule : String) : Diagnostic :=
  let token := stream.get position
  ⟨position, token.span, token.line, token.column, message, rule, []⟩

/-- The diagnostic with the lines of a text as notes, unless the text is what
    the message says already. -/
def withNotes (diagnostic : Diagnostic) (text : String) : Diagnostic :=
  if text == diagnostic.message then diagnostic
  else { diagnostic with notes := Text.lines text }

/-- The line and column that the diagnostic points at. -/
def place (diagnostic : Diagnostic) : String :=
  toString diagnostic.line ++ ":" ++ toString diagnostic.column ++ ": "

/-- The report of a diagnostic under a title. -/
def report (diagnostic : Diagnostic) (title : String) : Report where
  title := title
  label := diagnostic.message
  note := some <|
    "\n".intercalate (("while matching rule `" ++ diagnostic.rule ++ "`") :: diagnostic.notes)

end Diagnostic

/-- How a match ended. -/
inductive Outcome where
  /-- The input matches. -/
  | success
  /-- The input does not match; the diagnostic tells how far it did. -/
  | failure (diagnostic : Diagnostic)
  /-- Matching stopped before it was clear whether the input matches. -/
  | fatal (diagnostic : Diagnostic)
  deriving DecidableEq, Repr

namespace Outcome

/-- What is told about a match that did not succeed. -/
def diagnostic? : Outcome → Option Diagnostic
  | .success => none
  | .failure diagnostic => some diagnostic
  | .fatal diagnostic => some diagnostic

/-- The same on one line. -/
def line? : Outcome → Option String
  | .success => none
  | .failure diagnostic => some (diagnostic.place ++ diagnostic.message)
  | .fatal diagnostic => some (diagnostic.place ++ "fatal: " ++ diagnostic.message)

/-- The report of a match that did not succeed. -/
def report? : Outcome → Option Report
  | .success => none
  | .failure diagnostic => some (diagnostic.report "input does not match the grammar")
  | .fatal diagnostic => some (diagnostic.report "matching was aborted")

end Outcome

end TokenGrammar
