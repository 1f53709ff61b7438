/-
  TokenGrammar.Match.Script

  Listeners that follow a script.  A script is a list of cues, each of which
  says which events it is for and what to answer to them.
-/
import TokenGrammar.Match.Event

namespace TokenGrammar

/-- The kinds of events. -/
inductive EventKind where
  | enter
  | leave
  | token
  | rewind
  deriving DecidableEq, Repr

namespace EventKind

/-- The name of a kind. -/
def name : EventKind → String
  | .enter => "enter"
  | .leave => "leave"
  | .token => "token"
  | .rewind => "rewind"

/-- The kind with a name. -/
def ofName? (name : String) : Option EventKind :=
  [EventKind.enter, .leave, .token, .rewind].find? (·.name == name)

end EventKind

namespace Event

/-- The kind of an event. -/
def kind : Event → EventKind
  | .enter _ => .enter
  | .leave _ => .leave
  | .token _ => .token
  | .rewind _ => .rewind

/-- The rule that is entered or left. -/
def rule? : Event → Option String
  | .enter rule => some rule
  | .leave rule => some rule
  | _ => none

/-- What a terminal matched. -/
def matched? : Event → Option Matched
  | .token matched => some matched
  | _ => none

end Event

/-- What to answer to certain events.  A condition that is not given holds of
    every event. -/
structure Cue where
  kind : Option EventKind
  rule : Option String
  scope : Option String
  text : Option String
  className : Option String
  /-- How often the conditions must have held before. -/
  nth : Option Nat
  response : Response
  deriving DecidableEq, Repr

namespace Cue

/-- Whether a condition is not given, or asks for what there is. -/
def allows {α : Type} [DecidableEq α] (condition value : Option α) : Bool :=
  condition.isNone || condition == value

/-- Whether the conditions of a cue hold of an event. -/
def applies (cue : Cue) (context : Context) (event : Event) : Bool :=
  allows cue.kind (some event.kind) &&
    allows cue.rule event.rule? &&
    allows cue.scope context.scope? &&
    allows cue.text (event.matched?.map Matched.text) &&
    allows cue.className (event.matched?.map (·.cls.name))

/-- Whether a cue is for the occasion after as many as `before`. -/
def isDue (cue : Cue) (before : Nat) : Bool := cue.nth.isNone || cue.nth == some before

end Cue

/-- The cues of a script, each with how often its conditions have held. -/
abbrev Script := List (Cue × Nat)

namespace Script

/-- A script of which nothing has been followed. -/
def ofCues (cues : List Cue) : Script := cues.map (·, 0)

/-- The answer of the first cue that is for an event and due.  Whether or not it
    is due, the cue remembers the event; the cues behind the one that answers do
    not get to know of it. -/
def answer (context : Context) (event : Event) : Script → Response × Script
  | [] => (.accept, [])
  | (cue, before) :: rest =>
    if cue.applies context event then
      if cue.isDue before then (cue.response, (cue, before + 1) :: rest)
      else
        let (response, rest) := answer context event rest
        (response, (cue, before + 1) :: rest)
    else
      let (response, rest) := answer context event rest
      (response, (cue, before) :: rest)

/-- The listener that follows a script. -/
def listener : Listener Script := ⟨answer⟩

end Script

end TokenGrammar
