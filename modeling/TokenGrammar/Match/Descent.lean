/-
  TokenGrammar.Match.Descent

  Every step of a run descends in the order on ranks.  A frame gets lighter
  whenever its alternation goes on to another branch, its cursor moves on, a
  repeated element matches (which takes tokens), or an attempt at an element
  begins or fails; and whatever a step does above the frame that gets lighter
  does not matter.  Main statement: `Setting.descends_step`.
-/
import TokenGrammar.Match.Machine
import TokenGrammar.Match.Rank

namespace TokenGrammar

-- ============================================================================
-- The weights of frames
-- ============================================================================

namespace Frame

/-- How many branches have not been tried. -/
def branchesLeft (frame : Frame) : Nat :=
  match frame.origin with
  | .branch _ later => later.length
  | _ => 0

/-- The weight of a frame whose element is about to be attempted by a reader with
    some tokens left. -/
def readyWeight (frame : Frame) (tokens : Nat) : Weight :=
  ⟨frame.branchesLeft, frame.rest.length, tokens, 2⟩

/-- The weight of a frame whose element is being attempted. -/
def waitingWeight (frame : Frame) (stream : TokenStream) : Weight :=
  ⟨frame.branchesLeft, frame.rest.length, stream.remaining frame.attempt.position, 1⟩

/-- The weight of a frame that fails. -/
def failingWeight (frame : Frame) : Weight := ⟨frame.branchesLeft, frame.rest.length, 0, 0⟩

/-- A match that takes tokens makes a frame lighter. -/
theorem lighter_countPass {frame : Frame} {stream : TokenStream} {tokens : Nat}
    (h : tokens < stream.remaining frame.attempt.position) :
    (frame.countPass.readyWeight tokens).Lighter (frame.waitingWeight stream) :=
  .inr ⟨rfl, .inr ⟨rfl, .inl h⟩⟩

/-- Moving the cursor on makes a frame lighter. -/
theorem lighter_advance {frame : Frame} (hrest : frame.rest ≠ []) (stream : TokenStream)
    (tokens : Nat) : (frame.advance.readyWeight tokens).Lighter (frame.waitingWeight stream) := by
  have positive : 0 < frame.rest.length := List.length_pos_iff.2 hrest
  have shorter : frame.advance.rest.length < frame.rest.length := by
    simp only [advance, List.length_tail]
    omega
  exact .inr ⟨rfl, .inl shorter⟩

/-- Failing makes a frame lighter, whatever it was doing. -/
theorem lighter_failing_waiting (frame : Frame) (stream : TokenStream) :
    frame.failingWeight.Lighter (frame.waitingWeight stream) := by
  refine .inr ⟨rfl, .inr ⟨rfl, ?_⟩⟩
  show 0 < stream.remaining _ ∨ 0 = stream.remaining _ ∧ 0 < 1
  omega

theorem lighter_failing_ready (frame : Frame) (tokens : Nat) :
    frame.failingWeight.Lighter (frame.readyWeight tokens) := by
  refine .inr ⟨rfl, .inr ⟨rfl, ?_⟩⟩
  show 0 < tokens ∨ 0 = tokens ∧ 0 < 2
  omega

/-- Beginning an attempt makes a frame lighter. -/
theorem lighter_waiting_ready {frame : Frame} {reader : Reader}
    (h : frame.attempt = reader.checkpoint) :
    (frame.waitingWeight reader.stream).Lighter (frame.readyWeight reader.remaining) := by
  refine .inr ⟨rfl, .inr ⟨rfl, .inr ⟨?_, Nat.lt_add_one 1⟩⟩⟩
  simp only [waitingWeight, readyWeight, h, Reader.checkpoint, Reader.remaining]

end Frame

namespace Stack

/-- How many frames there may be. -/
def height (stack : Stack) : Nat := stack.below.length + 1 + stack.room

/-- The weights of the frames below the top one, from the bottom up. -/
def weightsBelow (stack : Stack) (stream : TokenStream) : List Weight :=
  (stack.below.map (·.waitingWeight stream)).reverse

end Stack

namespace State

variable {σ : Type}

/-- The token stream of a run. -/
def stream (state : State σ) : TokenStream := state.track.reader.stream

/-- The weight of the top frame. -/
def topWeight (state : State σ) : Weight :=
  match state.phase with
  | .matching => state.stack.top.readyWeight state.track.reader.remaining
  | .failing _ => state.stack.top.failingWeight

/-- The rank of a run in the middle of it. -/
def rank (state : State σ) : Rank :=
  ⟨state.stack.height, state.stack.weightsBelow state.stream ++ [state.topWeight]⟩

end State

-- ============================================================================
-- Descending steps
-- ============================================================================

namespace Step

variable {σ : Type}

/-- A step ends the run, or it leads to a state with the same token stream, with
    the same bound on its stack, and with lower weights. -/
def Descends (stream : TokenStream) (height : Nat) (weights : List Weight) : Step σ → Prop
  | .done .. => True
  | .next state =>
    state.stream = stream ∧ state.stack.height = height ∧ Lower state.rank.weights weights

theorem descends_abort {stream : TokenStream} {height : Nat} {weights : List Weight}
    {abort : Abort} {track : Track σ} : (Step.abort abort track).Descends stream height weights :=
  trivial

/-- A state descends if its stack keeps what stands below one frame, and that
    frame gets lighter. -/
theorem descends_next {stream : TokenStream} {height : Nat} {state : State σ}
    {common vs ws : List Weight} {v w : Weight} (hstream : state.stream = stream)
    (hheight : state.stack.height = height) (heq : state.rank.weights = common ++ v :: vs)
    (hlighter : v.Lighter w) :
    (Step.next state).Descends stream height (common ++ w :: ws) :=
  ⟨hstream, hheight, heq ▸ .append hlighter common⟩

/-- What is asked of going on after going back. -/
theorem descends_rewindThen {setting : Setting σ} {checkpoint : Checkpoint} {track : Track σ}
    {goOn : Track σ → Step σ} {height : Nat} {weights : List Weight}
    (h : ∀ back : Track σ, back.reader = track.reader.seek checkpoint →
      (goOn back).Descends track.reader.stream height weights) :
    (setting.rewindThen checkpoint track goOn).Descends track.reader.stream height weights := by
  unfold Setting.rewindThen
  have hreader := Track.reader_rewind setting.listener checkpoint track
  split
  · exact descends_abort
  · next back hback => exact h back (by simpa [hback] using hreader)

/-- What is asked of going on after an event. -/
theorem descends_emitThen {setting : Setting σ} {event : Event} {track : Track σ}
    {rejected : Failure → Track σ → Step σ} {accepted : Track σ → Step σ} {stream : TokenStream}
    {height : Nat} {weights : List Weight}
    (hrejected : ∀ (failure : Failure) (told : Track σ), told.reader = track.reader →
      (rejected failure told).Descends stream height weights)
    (haccepted : ∀ told : Track σ, told.reader = track.reader →
      (accepted told).Descends stream height weights) :
    (setting.emitThen event track rejected accepted).Descends stream height weights := by
  have hreader := Track.reader_emit setting.listener event track
  unfold Setting.emitThen
  split
  · next told htold => exact haccepted told (by rw [← hreader, htold])
  · next refusal told htold => exact hrejected _ told (by rw [← hreader, htold])
  · exact descends_abort

end Step

namespace Stack

variable {σ : Type}

/-- If the element at the top frame's cursor matches, a stack descends below any
    weight above that of the waiting frame. -/
theorem descends_afterMatch (stack : Stack) (track : Track σ) {node : Node} {w : Weight}
    {ws : List Weight} (hrest : stack.top.rest ≠ [])
    (hw : ∀ v : Weight,
      v.Lighter (stack.top.waitingWeight track.reader.stream) → v.Lighter w) :
    (stack.afterMatch node track).Descends track.reader.stream stack.height
      (stack.weightsBelow track.reader.stream ++ w :: ws) := by
  unfold afterMatch
  split
  · split
    · next htokens =>
      exact Step.descends_next rfl rfl rfl (hw _ (Frame.lighter_countPass htokens))
    · exact Step.descends_abort
  · exact Step.descends_next rfl rfl rfl (hw _ (Frame.lighter_advance hrest _ _))

/-- If the element at the top frame's cursor fails, a stack descends below any
    weight above that of the waiting frame. -/
theorem descends_afterFailure (stack : Stack) (track : Track σ) {node : Node}
    {failure : Failure} {w : Weight} {ws : List Weight} (hrest : stack.top.rest ≠ [])
    (hw : ∀ v : Weight,
      v.Lighter (stack.top.waitingWeight track.reader.stream) → v.Lighter w) :
    (stack.afterFailure node failure track).Descends track.reader.stream stack.height
      (stack.weightsBelow track.reader.stream ++ w :: ws) := by
  unfold afterFailure
  split
  · exact Step.descends_next rfl rfl rfl (hw _ (Frame.lighter_advance hrest _ _))
  · split
    · exact Step.descends_abort
    · exact Step.descends_next rfl rfl rfl (hw _ (Frame.lighter_failing_waiting _ _))

/-- A stack without its top frame has an element at its cursor, as many frames
    at most, and the frames below in common. -/
theorem of_pop? {stack parent : Stack} {node : Node} (h : stack.pop? = some (parent, node)) :
    parent.top.rest ≠ [] ∧ parent.height = stack.height ∧
      ∀ stream, stack.weightsBelow stream =
        parent.weightsBelow stream ++ [parent.top.waitingWeight stream] := by
  unfold pop? at h
  split at h
  · cases h
  · next frame below hbelow =>
    split at h
    · cases h
    · next hrest =>
      cases h
      refine ⟨by simp [hrest], ?_, fun stream => ?_⟩
      · simp only [height, hbelow, List.length_cons]
        omega
      · simp [weightsBelow, hbelow]

/-- A stack descends by opening a frame for an attempt of its top frame. -/
theorem descends_push? {stack pushed : Stack} {frame : Frame} {phase : Phase}
    {track told : Track σ} (h : stack.push? frame = some pushed)
    (hattempt : stack.top.attempt = track.reader.checkpoint)
    (hreader : told.reader = track.reader) :
    (Step.next ⟨pushed, phase, told⟩).Descends track.reader.stream stack.height
      (stack.weightsBelow track.reader.stream ++
        [stack.top.readyWeight track.reader.remaining]) := by
  unfold push? at h
  split at h
  · cases h
  · next room hroom =>
    cases h
    let after : State σ := ⟨⟨frame, stack.top :: stack.below, room⟩, phase, told⟩
    have hweights : after.rank.weights =
        stack.weightsBelow track.reader.stream ++
          [stack.top.waitingWeight track.reader.stream, after.topWeight] := by
      simp [after, State.rank, State.stream, weightsBelow, hreader]
    refine Step.descends_next (congrArg Reader.stream hreader) ?_ hweights
      (Frame.lighter_waiting_ready hattempt)
    simp only [height, hroom, List.length_cons]
    omega

/-- A stack that gives up its top frame descends. -/
theorem descends_giveUp {stack : Stack} {failure : Failure} {track : Track σ}
    {stream : TokenStream} {weights : List Weight} (hstream : track.reader.stream = stream) :
    (stack.giveUp failure track).Descends stream stack.height
      (stack.weightsBelow stream ++ weights) := by
  subst hstream
  unfold giveUp
  split
  · exact Step.descends_abort
  · next parent node hpop =>
    obtain ⟨hrest, hheight, hbelow⟩ := of_pop? hpop
    rw [hbelow, List.append_assoc, ← hheight]
    exact descends_afterFailure parent track hrest fun v hv => hv

end Stack

namespace Setting

variable {σ : Type}

theorem descends_attemptTerminal (setting : Setting σ) {stack : Stack} {node : Node}
    {pattern : Terminal} {track : Track σ} (hrest : stack.top.rest ≠ [])
    (hattempt : stack.top.attempt = track.reader.checkpoint) :
    (setting.attemptTerminal stack node pattern track).Descends track.reader.stream stack.height
      (stack.weightsBelow track.reader.stream ++
        [stack.top.readyWeight track.reader.remaining]) := by
  have hw : ∀ v : Weight, v.Lighter (stack.top.waitingWeight track.reader.stream) →
      v.Lighter (stack.top.readyWeight track.reader.remaining) :=
    fun v hv => hv.trans (Frame.lighter_waiting_ready hattempt)
  unfold attemptTerminal
  split
  · exact Stack.descends_afterFailure stack (track.offer _ _) hrest hw
  · next matched reader hmatch =>
    have hstream : reader.stream = track.reader.stream := Terminal.stream_of_matchAt hmatch
    refine Step.descends_emitThen (fun failure told htold => ?_) (fun told htold => ?_)
    · have hreader : (told.offer matched.position failure).reader = reader := htold
      rw [← hstream, ← hreader]
      refine Step.descends_rewindThen fun back hback => ?_
      have hback : back.reader.stream = reader.stream := by rw [hback, hreader]; rfl
      rw [hreader, ← hback]
      refine Stack.descends_afterFailure stack back hrest ?_
      rwa [hback, hstream]
    · have hreader : told.reader = reader := htold
      rw [← hstream, ← hreader]
      refine Stack.descends_afterMatch stack told hrest ?_
      rwa [hreader, hstream]

theorem descends_attemptRule (setting : Setting σ) (stack : Stack) {name : String}
    {track : Track σ} (hattempt : stack.top.attempt = track.reader.checkpoint) :
    (setting.attemptRule stack name track).Descends track.reader.stream stack.height
      (stack.weightsBelow track.reader.stream ++
        [stack.top.readyWeight track.reader.remaining]) := by
  unfold attemptRule
  split
  · exact Step.descends_abort
  · split
    · exact Step.descends_abort
    · next pushed hpush =>
      exact Step.descends_emitThen
        (fun _ _ htold => Stack.descends_push? hpush hattempt htold)
        (fun _ htold => Stack.descends_push? hpush hattempt htold)

theorem descends_attemptAlternation (setting : Setting σ) {stack : Stack} {node : Node}
    {branches : List (List Node)} {track : Track σ} (hrest : stack.top.rest ≠ [])
    (hattempt : stack.top.attempt = track.reader.checkpoint) :
    (setting.attemptAlternation stack node branches track).Descends track.reader.stream
      stack.height
      (stack.weightsBelow track.reader.stream ++
        [stack.top.readyWeight track.reader.remaining]) := by
  have hw := Frame.lighter_waiting_ready hattempt
  unfold attemptAlternation
  split
  · exact Stack.descends_afterFailure stack track hrest fun v hv => hv.trans hw
  · split
    · exact Step.descends_abort
    · next pushed hpush =>
      exact Stack.descends_push? hpush hattempt rfl

theorem descends_attempt (setting : Setting σ) {stack : Stack} {node : Node} {track : Track σ}
    (hrest : stack.top.rest ≠ []) :
    (setting.attempt stack node track).Descends track.reader.stream stack.height
      (stack.weightsBelow track.reader.stream ++
        [stack.top.readyWeight track.reader.remaining]) := by
  let attempted := stack.withTop { stack.top with attempt := track.reader.checkpoint }
  have hrest' : attempted.top.rest ≠ [] := hrest
  cases node with
  | terminal modifiers span pattern => exact setting.descends_attemptTerminal hrest' rfl
  | ref modifiers span name => exact setting.descends_attemptRule attempted rfl
  | alternation modifiers span branches onceEach =>
    exact setting.descends_attemptAlternation hrest' rfl

theorem descends_closeRule {stack : Stack} {track : Track σ} {weights : List Weight} :
    (closeRule stack track).Descends track.reader.stream stack.height
      (stack.weightsBelow track.reader.stream ++ weights) := by
  unfold closeRule
  split
  · trivial
  · split
    · exact Step.descends_abort
    · next parent node hpop =>
      obtain ⟨hrest, hheight, hbelow⟩ := Stack.of_pop? hpop
      rw [hbelow, List.append_assoc, ← hheight]
      exact Stack.descends_afterMatch parent track.closeRule hrest fun v hv => hv

theorem descends_finishRule (setting : Setting σ) {stack : Stack} {name : String}
    {track : Track σ} :
    (setting.finishRule stack name track).Descends track.reader.stream stack.height
      (stack.weightsBelow track.reader.stream ++
        [stack.top.readyWeight track.reader.remaining]) := by
  refine Step.descends_emitThen (fun failure told htold => ?_) (fun told htold => ?_)
  · rw [← htold]
    exact Step.descends_next rfl rfl rfl (Frame.lighter_failing_ready _ _)
  · rw [← htold]
    exact descends_closeRule

theorem descends_finishBranch (setting : Setting σ) {stack : Stack} {index : Nat}
    {track : Track σ} {weights : List Weight} :
    (setting.finishBranch stack index track).Descends track.reader.stream stack.height
      (stack.weightsBelow track.reader.stream ++ weights) := by
  unfold finishBranch
  dsimp only
  split
  · exact Step.descends_abort
  · next parent node hpop =>
    obtain ⟨hrest, hheight, hbelow⟩ := Stack.of_pop? hpop
    rw [hbelow, List.append_assoc, ← hheight]
    split
    · split
      · refine Step.descends_rewindThen fun back hback => ?_
        have hstream : back.reader.stream = track.reader.stream := by
          simp [hback, Reader.seek]
        rw [← hstream]
        exact Stack.descends_afterFailure parent (back.offerHere _) hrest fun v hv => hv
      · exact Stack.descends_afterMatch (parent.withTop (parent.top.take index)) track hrest
          fun v hv => hv
    · exact Stack.descends_afterMatch parent track hrest fun v hv => hv

theorem descends_finish (setting : Setting σ) {stack : Stack} {track : Track σ} :
    (setting.finish stack track).Descends track.reader.stream stack.height
      (stack.weightsBelow track.reader.stream ++
        [stack.top.readyWeight track.reader.remaining]) := by
  unfold finish
  split
  · exact setting.descends_finishRule
  · exact setting.descends_finishRule
  · exact setting.descends_finishBranch

theorem descends_fail (setting : Setting σ) {stack : Stack} {failure : Failure}
    {track : Track σ} :
    (setting.fail stack failure track).Descends track.reader.stream stack.height
      (stack.weightsBelow track.reader.stream ++ [stack.top.failingWeight]) := by
  have hseek : ∀ {back : Track σ}, back.reader = track.reader.seek stack.top.entry →
      back.reader.stream = track.reader.stream := fun h => by simp [h, Reader.seek]
  unfold fail
  dsimp only
  split
  · exact Step.descends_rewindThen fun back hback => trivial
  · exact Step.descends_rewindThen fun back hback => Stack.descends_giveUp (hseek hback)
  · exact Step.descends_rewindThen fun back hback => Stack.descends_giveUp (hseek hback)
  · next failed next later horigin =>
    refine Step.descends_rewindThen fun back hback => ?_
    have hstream := hseek hback
    rw [← hstream]
    refine Step.descends_next rfl rfl rfl (.inl ?_)
    show later.length < stack.top.branchesLeft
    simp [Frame.branchesLeft, horigin]

/-- Every step ends the run or descends. -/
theorem descends_step (setting : Setting σ) (state : State σ) :
    (setting.step state).Descends state.stream state.stack.height state.rank.weights := by
  obtain ⟨stack, phase, track⟩ := state
  unfold step
  cases phase with
  | failing failure => exact setting.descends_fail
  | matching =>
    dsimp only
    split
    · exact setting.descends_finish
    · next node rest hrest => exact setting.descends_attempt (by simp [hrest])

/-- A step leads to a state of lower rank. -/
theorem isLower_of_step {setting : Setting σ} {state after : State σ}
    (h : setting.step state = .next after) : after.rank.IsLower state.rank := by
  have descends := setting.descends_step state
  rw [h] at descends
  obtain ⟨-, hheight, hlower⟩ := descends
  refine ⟨hheight, ?_, hlower⟩
  show after.rank.weights.length ≤ state.stack.height
  rw [← hheight]
  simp only [State.rank, Stack.weightsBelow, Stack.height, List.length_append,
    List.length_reverse, List.length_map, List.length_singleton]
  omega

end Setting

end TokenGrammar
