/-
  TokenGrammar.Match.Event

  What a run of a matcher tells about itself while it goes on, and what a
  listener answers: it may let the run go on, have it treat the element at hand
  as one that does not match, or stop it.
-/
import TokenGrammar.Token.Basic

namespace TokenGrammar

/-- The input that a terminal matched.  A number or a string may be made of
    several tokens; a string has the text between its quotes. -/
structure Matched where
  cls : TokenClass
  text : String
  span : Span
  /-- The position of the first token. -/
  position : Nat
  deriving DecidableEq, Repr

/-- Something that happens during a run. -/
inductive Event where
  /-- A rule begins to be matched. -/
  | enter (rule : String)
  /-- All elements of a rule have matched. -/
  | leave (rule : String)
  /-- A terminal matched. -/
  | token (matched : Matched)
  /-- The reader went back to a position, so what was read behind it is undone. -/
  | rewind (position : Nat)
  deriving DecidableEq, Repr

/-- An event in words. -/
def Event.description : Event → String
  | .enter rule => "entering `" ++ rule ++ "`"
  | .leave rule => "leaving `" ++ rule ++ "`"
  | .token matched => "`" ++ matched.text ++ "`"
  | .rewind position => "rewinding to token " ++ toString position

/-- Where a run stands when something happens: the rules that are being matched,
    the innermost first, and the position of the reader. -/
structure Context where
  scopes : List String
  position : Nat
  deriving DecidableEq, Repr

namespace Context

/-- The innermost rule that is being matched. -/
def scope? (context : Context) : Option String := context.scopes.head?

/-- The rules that are being matched, from the outermost inwards. -/
def path (context : Context) : List String := context.scopes.reverse

end Context

-- ============================================================================
-- Verdicts
-- ============================================================================

/-- What a listener thinks of an event. -/
inductive Verdict where
  /-- Stop the run. -/
  | fatal
  /-- Treat the element as one that does not match. -/
  | reject
  /-- Go on. -/
  | accept
  deriving DecidableEq, Repr, Inhabited

namespace Verdict

/-- The number of a verdict. -/
def toInt : Verdict → Int
  | .fatal => -1
  | .reject => 0
  | .accept => 1

/-- The verdict with a number. -/
def ofInt? (n : Int) : Option Verdict :=
  [Verdict.fatal, .reject, .accept].find? (·.toInt == n)

theorem ofInt?_toInt (verdict : Verdict) : ofInt? verdict.toInt = some verdict := by
  cases verdict <;> decide

theorem toInt_of_ofInt? {n : Int} {verdict : Verdict} (h : ofInt? n = some verdict) :
    verdict.toInt = n := by
  simpa using List.find?_some h

end Verdict

/-- A listener's answer to an event: its verdict, and perhaps its reason. -/
structure Response where
  verdict : Verdict
  reason : Option String
  deriving DecidableEq, Repr

/-- Let the run go on. -/
def Response.accept : Response := ⟨.accept, none⟩

/-- Somebody who answers the events of a run and remembers something of type
    `σ` between them. -/
structure Listener (σ : Type) where
  respond : Context → Event → σ → Response × σ

namespace Listener

/-- A listener that lets everything go on. -/
def acceptAll : Listener Unit := ⟨fun _ _ memory => (.accept, memory)⟩

/-- The listener that answers as `listener` does and writes down every event
    before it answers, the last one first. -/
def recording {σ : Type} (listener : Listener σ) : Listener (σ × List (Context × Event)) :=
  ⟨fun context event (memory, events) =>
    let (response, memory) := listener.respond context event memory
    (response, memory, (context, event) :: events)⟩

end Listener

end TokenGrammar
