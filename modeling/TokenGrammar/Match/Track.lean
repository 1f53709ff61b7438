/-
  TokenGrammar.Match.Track

  What a run has done so far: how far its reader has come, which rules are being
  matched, which failure lies furthest into the input, and what its listener
  remembers.
-/
import TokenGrammar.Match.Diagnostic
import TokenGrammar.Match.Failure
import TokenGrammar.Token.Reader

namespace TokenGrammar

/-- The trace that a run leaves.  The innermost rule comes first. -/
structure Track (σ : Type) where
  reader : Reader
  scopes : List String
  reach : Option (Reach Failure)
  memory : σ

/-- What becomes of an event. -/
inductive Reply where
  | accepted
  | rejected (refusal : Refusal)
  | stopped (refusal : Refusal)
  deriving DecidableEq, Repr

/-- The reply that an answer to an event amounts to.  A reason does not matter
    if the event is accepted. -/
def Response.reply (response : Response) (event : Event) : Reply :=
  match response.verdict with
  | .accept => .accepted
  | .reject => .rejected ⟨event, response.reason⟩
  | .fatal => .stopped ⟨event, response.reason⟩

namespace Track

variable {σ : Type}

/-- The innermost rule, or the one that matching begins with if there is none. -/
def scope (track : Track σ) : String := track.scopes.head?.getD rootName

/-- What a listener gets to know besides the event. -/
def context (track : Track σ) : Context := ⟨track.scopes, track.reader.position⟩

/-- Hand an event to the listener. -/
def emit (listener : Listener σ) (event : Event) (track : Track σ) : Reply × Track σ :=
  let (response, memory) := listener.respond track.context event track.memory
  (response.reply event, { track with memory })

/-- The track with the reader elsewhere. -/
def withReader (track : Track σ) (reader : Reader) : Track σ := { track with reader }

/-- Open a rule. -/
def openRule (track : Track σ) (rule : String) : Track σ :=
  { track with scopes := rule :: track.scopes }

/-- Close the innermost rule. -/
def closeRule (track : Track σ) : Track σ := { track with scopes := track.scopes.tail }

/-- Offer a failure at a position. -/
def offer (track : Track σ) (position : Nat) (failure : Failure) : Track σ :=
  { track with reach := Reach.offer track.reach ⟨position, failure, track.scope⟩ }

/-- Offer a failure at the next significant token. -/
def offerHere (track : Track σ) (failure : Failure) : Track σ :=
  track.offer track.reader.significantPosition failure

/-- Go back to a checkpoint, and tell the listener if that undoes anything.  The
    listener cannot reject this, but it can stop the run. -/
def rewind (listener : Listener σ) (checkpoint : Checkpoint) (track : Track σ) :
    Option Refusal × Track σ :=
  let back := track.withReader (track.reader.seek checkpoint)
  if checkpoint.position < track.reader.position then
    match back.emit listener (.rewind checkpoint.position) with
    | (.stopped refusal, told) => (some refusal, told)
    | (_, told) => (none, told)
  else (none, back)

/-! ## The stream stays the same -/

@[simp] theorem reader_emit (listener : Listener σ) (event : Event) (track : Track σ) :
    (track.emit listener event).2.reader = track.reader := rfl

@[simp] theorem reader_openRule (track : Track σ) (rule : String) :
    (track.openRule rule).reader = track.reader := rfl

@[simp] theorem reader_closeRule (track : Track σ) : track.closeRule.reader = track.reader := rfl

@[simp] theorem reader_offer (track : Track σ) (position : Nat) (failure : Failure) :
    (track.offer position failure).reader = track.reader := rfl

@[simp] theorem reader_offerHere (track : Track σ) (failure : Failure) :
    (track.offerHere failure).reader = track.reader := rfl

@[simp] theorem reader_withReader (track : Track σ) (reader : Reader) :
    (track.withReader reader).reader = reader := rfl

@[simp] theorem reader_rewind (listener : Listener σ) (checkpoint : Checkpoint)
    (track : Track σ) :
    (track.rewind listener checkpoint).2.reader = track.reader.seek checkpoint := by
  unfold rewind
  dsimp only
  split
  · split
    · next h => simpa using congrArg (fun r => r.2.reader) h.symm
    · next h => simpa using congrArg (fun r => r.2.reader) h.symm
  · rfl

end Track

end TokenGrammar
