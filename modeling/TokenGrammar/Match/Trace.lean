/-
  TokenGrammar.Match.Trace

  A listener that accepts everything and writes down what happens, a line for
  each event, indented by how deep in the rules it happens.
-/
import TokenGrammar.Match.Event
import TokenGrammar.Text.Quoted

namespace TokenGrammar

/-- The lines of a trace, the last one first. -/
structure Trace where
  reversed : List String
  deriving DecidableEq, Repr

namespace Trace

/-- A trace of nothing. -/
def empty : Trace := ⟨[]⟩

/-- Forget the lines of a trace. -/
def clear (_ : Trace) : Trace := empty

/-- The lines of a trace in order. -/
def lines (trace : Trace) : List String := trace.reversed.reverse

/-- The indentation at a depth. -/
def indent (depth : Nat) : String := String.join (List.replicate depth "  ")

/-- The line for an event.  The rules that are being matched include the one
    that is entered or left. -/
def line (context : Context) (event : Event) : String :=
  let depth := context.scopes.length
  match event with
  | .enter rule => indent (depth - 1) ++ rule ++ " \x7b"
  | .leave rule => indent (depth - 1) ++ "\x7d " ++ rule
  | .token matched =>
    indent depth ++ matched.cls.name ++ " " ++ Text.quoted matched.text ++ " @" ++
      toString matched.position
  | .rewind position => indent depth ++ "<- back to token " ++ toString position

/-- The listener that traces a run. -/
def listener : Listener Trace :=
  ⟨fun context event trace => (.accept, ⟨line context event :: trace.reversed⟩)⟩

end Trace

end TokenGrammar
