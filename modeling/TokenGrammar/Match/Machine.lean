/-
  TokenGrammar.Match.Machine

  Matching with an explicit stack.  Every rule and every alternation that is
  being matched has a frame on the stack; the element at the cursor of a frame
  is what the frame above it was opened for.  The top frame is either being
  matched or failing, and one step brings it forward by one element, or ends it
  and tells the frame below.  So the depth of nesting is a number that can be
  limited.
-/
import TokenGrammar.Match.Terminal
import TokenGrammar.Match.Track

namespace TokenGrammar

-- ============================================================================
-- The stack
-- ============================================================================

/-- What a frame was opened for.  An alternation keeps why its earlier branches
    failed, the last one first, and the branches that have not been tried. -/
inductive Origin where
  | root
  | rule (name : String)
  | branch (failed : List Failure) (later : List (List Node))
  deriving Repr

/-- The rule that a frame was opened for. -/
def Origin.rule? : Origin → Option String
  | .root => some rootName
  | .rule name => some name
  | .branch .. => none

/-- A sequence that is being matched. -/
structure Frame where
  origin : Origin
  /-- The elements that have not matched, beginning with the one at the
      cursor. -/
  rest : List Node
  /-- How often the element at the cursor has matched. -/
  passes : Nat
  /-- The branches that the alternation at the cursor has been matched by. -/
  taken : List Nat
  /-- The reader when the element at the cursor was last attempted. -/
  attempt : Checkpoint
  /-- The reader when the sequence began. -/
  entry : Checkpoint
  deriving Repr

namespace Frame

/-- A frame for a sequence that begins at a checkpoint. -/
def start (origin : Origin) (nodes : List Node) (entry : Checkpoint) : Frame :=
  ⟨origin, nodes, 0, [], entry, entry⟩

/-- Move the cursor to the next element. -/
def advance (frame : Frame) : Frame :=
  { frame with rest := frame.rest.tail, passes := 0, taken := [] }

/-- Count a match of the element at the cursor. -/
def countPass (frame : Frame) : Frame := { frame with passes := frame.passes + 1 }

/-- Note that the alternation at the cursor has been matched by a branch. -/
def take (frame : Frame) (index : Nat) : Frame := { frame with taken := index :: frame.taken }

/-- Whether a failure of the element at the cursor does not matter: it has
    matched before, or it need not. -/
def absorbs (frame : Frame) (modifiers : Modifiers) : Bool :=
  (modifiers.repeated && decide (0 < frame.passes)) || modifiers.optional

end Frame

/-- The frames of a run from the top one down, and how many more there may
    be. -/
structure Stack where
  top : Frame
  below : List Frame
  room : Nat
  deriving Repr

namespace Stack

/-- Open another frame, if there is room for it. -/
def push? (stack : Stack) (frame : Frame) : Option Stack :=
  match stack.room with
  | 0 => none
  | room + 1 => some ⟨frame, stack.top :: stack.below, room⟩

/-- The stack without its top frame, and the element at the cursor of the frame
    below. -/
def pop? (stack : Stack) : Option (Stack × Node) :=
  match stack.below with
  | [] => none
  | parent :: below =>
    match parent.rest with
    | [] => none
    | node :: _ => some (⟨parent, below, stack.room + 1⟩, node)

/-- Replace the top frame. -/
def withTop (stack : Stack) (top : Frame) : Stack := { stack with top }

end Stack

-- ============================================================================
-- States
-- ============================================================================

/-- How the top frame is doing. -/
inductive Phase where
  | matching
  | failing (failure : Failure)
  deriving Repr

/-- A run in the middle of it. -/
structure State (σ : Type) where
  stack : Stack
  phase : Phase
  track : Track σ

/-- How a run ends. -/
inductive Ending where
  | matched
  | failed (failure : Failure)
  | aborted (abort : Abort)
  deriving Repr

/-- What a step leads to. -/
inductive Step (σ : Type) where
  | next (state : State σ)
  | done (ending : Ending) (track : Track σ)

/-- What a run goes by. -/
structure Setting (σ : Type) where
  rules : RuleTable
  /-- How many frames there may be at once. -/
  limit : Nat
  listener : Listener σ

namespace Step

variable {σ : Type}

/-- Stop a run. -/
def abort (abort : Abort) (track : Track σ) : Step σ := .done (.aborted abort) track

/-- Go on to match the top frame of a stack. -/
def matching (stack : Stack) (track : Track σ) : Step σ := .next ⟨stack, .matching, track⟩

/-- Go on with a top frame that fails. -/
def failing (stack : Stack) (failure : Failure) (track : Track σ) : Step σ :=
  .next ⟨stack, .failing failure, track⟩

end Step

-- ============================================================================
-- Steps
-- ============================================================================

namespace Stack

variable {σ : Type}

/-- The element `node` at the top frame's cursor has matched.  A repeated element
    is matched again, but only if fewer tokens are left than when it was
    attempted. -/
def afterMatch (stack : Stack) (node : Node) (track : Track σ) : Step σ :=
  if node.modifiers.repeated then
    if track.reader.remaining < track.reader.stream.remaining stack.top.attempt.position then
      .matching (stack.withTop stack.top.countPass) track
    else .abort (.emptyRepetition node) track
  else .matching (stack.withTop stack.top.advance) track

/-- The element `node` at the top frame's cursor has failed, and the reader is
    back where the element was attempted. -/
def afterFailure (stack : Stack) (node : Node) (failure : Failure) (track : Track σ) :
    Step σ :=
  if stack.top.absorbs node.modifiers then .matching (stack.withTop stack.top.advance) track
  else if node.modifiers.fatal then .abort (.fatalElement failure) track
  else .failing stack failure track

/-- The top frame has failed for good: its failure is that of the element it was
    opened for. -/
def giveUp (stack : Stack) (failure : Failure) (track : Track σ) : Step σ :=
  match stack.pop? with
  | none => .abort .noElement track
  | some (stack, node) => stack.afterFailure node failure track

end Stack

namespace Setting

variable {σ : Type}

/-- Go back to a checkpoint and go on from there, unless the listener stops the
    run. -/
def rewindThen (setting : Setting σ) (checkpoint : Checkpoint) (track : Track σ)
    (goOn : Track σ → Step σ) : Step σ :=
  match track.rewind setting.listener checkpoint with
  | (some refusal, track) => .abort (.stopped refusal) track
  | (none, track) => goOn track

/-- Hand an event to the listener and go on as it answers, unless it stops the
    run. -/
def emitThen (setting : Setting σ) (event : Event) (track : Track σ)
    (rejected : Failure → Track σ → Step σ) (accepted : Track σ → Step σ) : Step σ :=
  match track.emit setting.listener event with
  | (.accepted, track) => accepted track
  | (.rejected refusal, track) => rejected (.rejected refusal) track
  | (.stopped refusal, track) => .abort (.stopped refusal) track

/-- Attempt a terminal. -/
def attemptTerminal (setting : Setting σ) (stack : Stack) (node : Node) (pattern : Terminal)
    (track : Track σ) : Step σ :=
  match pattern.matchAt node.modifiers.adjacent track.reader with
  | .error miss =>
    let failure := Failure.mismatch miss.mismatch
    stack.afterFailure node failure (track.offer miss.position failure)
  | .ok (matched, reader) =>
    setting.emitThen (.token matched) (track.withReader reader)
      (fun failure track =>
        setting.rewindThen stack.top.attempt (track.offer matched.position failure)
          (stack.afterFailure node failure))
      (stack.afterMatch node)

/-- Open the rule that an element refers to. -/
def attemptRule (setting : Setting σ) (stack : Stack) (name : String) (track : Track σ) :
    Step σ :=
  match setting.rules.nodes? name with
  | none => .abort (.undefinedRule name) track
  | some nodes =>
    match stack.push? (.start (.rule name) nodes stack.top.attempt) with
    | none => .abort (.recursionLimit setting.limit) track
    | some stack =>
      setting.emitThen (.enter name) (track.openRule name)
        (fun failure track => .failing stack failure (track.offerHere failure))
        (.matching stack)

/-- Open the first branch of an alternation. -/
def attemptAlternation (setting : Setting σ) (stack : Stack) (node : Node)
    (branches : List (List Node)) (track : Track σ) : Step σ :=
  match branches with
  | [] => stack.afterFailure node .emptyAlternation track
  | first :: later =>
    match stack.push? (.start (.branch [] later) first stack.top.attempt) with
    | none => .abort (.recursionLimit setting.limit) track
    | some stack => .matching stack track

/-- Attempt the element at the top frame's cursor. -/
def attempt (setting : Setting σ) (stack : Stack) (node : Node) (track : Track σ) : Step σ :=
  let stack := stack.withTop { stack.top with attempt := track.reader.checkpoint }
  match node with
  | .terminal _ _ pattern => setting.attemptTerminal stack node pattern track
  | .ref _ _ name => setting.attemptRule stack name track
  | .alternation _ _ branches _ => setting.attemptAlternation stack node branches track

/-- The rule of the top frame is over: the run is, or the element that refers to
    the rule has matched. -/
def closeRule (stack : Stack) (track : Track σ) : Step σ :=
  match stack.top.origin with
  | .root => .done .matched track
  | _ =>
    match stack.pop? with
    | none => .abort .noElement track.closeRule
    | some (stack, node) => stack.afterMatch node track.closeRule

/-- All elements of the rule of the top frame have matched. -/
def finishRule (setting : Setting σ) (stack : Stack) (name : String) (track : Track σ) :
    Step σ :=
  setting.emitThen (.leave name) track
    (fun failure track => .failing stack failure (track.offerHere failure))
    (closeRule stack)

/-- All elements of the branch of the top frame have matched.  If the branch may
    be taken only once and has been, this counts as a failure. -/
def finishBranch (setting : Setting σ) (stack : Stack) (index : Nat) (track : Track σ) :
    Step σ :=
  let entry := stack.top.entry
  match stack.pop? with
  | none => .abort .noElement track
  | some (stack, node) =>
    if node.isOnceEach then
      if stack.top.taken.contains index then
        let failure := Failure.alreadySet index
        setting.rewindThen entry track fun track =>
          stack.afterFailure node failure (track.offerHere failure)
      else (stack.withTop (stack.top.take index)).afterMatch node track
    else stack.afterMatch node track

/-- The top frame has no more elements. -/
def finish (setting : Setting σ) (stack : Stack) (track : Track σ) : Step σ :=
  match stack.top.origin with
  | .root => setting.finishRule stack rootName track
  | .rule name => setting.finishRule stack name track
  | .branch failed _ => setting.finishBranch stack failed.length track

/-- The top frame fails.  An alternation goes on to its next branch. -/
def fail (setting : Setting σ) (stack : Stack) (failure : Failure) (track : Track σ) : Step σ :=
  let entry := stack.top.entry
  match stack.top.origin with
  | .root => setting.rewindThen entry track (.done (.failed failure))
  | .rule _ =>
    setting.rewindThen entry track fun track => stack.giveUp failure track.closeRule
  | .branch failed [] =>
    setting.rewindThen entry track
      (stack.giveUp (.noAlternative (failure :: failed).reverse))
  | .branch failed (next :: later) =>
    let top := Frame.start (.branch (failure :: failed) later) next entry
    setting.rewindThen entry track (.matching (stack.withTop top))

/-- Bring a run forward. -/
def step (setting : Setting σ) (state : State σ) : Step σ :=
  match state.phase with
  | .failing failure => setting.fail state.stack failure state.track
  | .matching =>
    match state.stack.top.rest with
    | [] => setting.finish state.stack state.track
    | node :: _ => setting.attempt state.stack node state.track

/-- Begin a run at a reader. -/
def start (setting : Setting σ) (reader : Reader) (memory : σ) : Step σ :=
  let track : Track σ := ⟨reader, [], none, memory⟩
  match setting.rules.nodes? rootName, setting.limit with
  | none, _ => .abort .noRoot track
  | some _, 0 => .abort (.recursionLimit setting.limit) track
  | some nodes, room + 1 =>
    let stack : Stack := ⟨.start .root nodes reader.checkpoint, [], room⟩
    setting.emitThen (.enter rootName) (track.openRule rootName) (.failing stack)
      (.matching stack)

end Setting

end TokenGrammar
