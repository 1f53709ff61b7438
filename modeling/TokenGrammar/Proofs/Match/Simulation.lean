/-
  TokenGrammar.Proofs.Match.Simulation

  The machine with its explicit stack does what matching by recursion does.  The
  invariant that carries the proof: a run whose top frame has a sequence left to
  match goes on like a run whose top frame is over, in the way and with the track
  that matching the sequence by recursion comes to
  (`Setting.run_eq_settle_of_attempts`).  The frames below are the continuation, and
  nothing is known about them.
-/

import TokenGrammar.Proofs.Match.Moves

namespace TokenGrammar

variable {σ : Type}

namespace Setting

-- ============================================================================
-- Going on with the frames below
-- ============================================================================

/-- Go on after the sequence of the top frame has come out. -/
def settle (setting : Setting σ) (stack : Stack) : Passage σ → Ending × Track σ
  | (.matched, track) => setting.complete (setting.finish stack track)
  | (.failed failure, track) => setting.complete (setting.fail stack failure track)
  | (.aborted abort, track) => (.aborted abort, track)

/-- Go on after an attempt at the element at the cursor of the top frame. -/
def settleAttempt (setting : Setting σ) (stack : Stack) (node : Node) :
    Attempt σ → Ending × Track σ
  | ((.matched, track), taken) =>
    setting.complete ((stack.withTop { stack.top with taken }).afterMatch node track)
  | ((.failed failure, track), _) => setting.complete (stack.afterFailure node failure track)
  | ((.aborted abort, track), _) => (.aborted abort, track)

theorem run_failing (setting : Setting σ) (stack : Stack) (failure : Failure)
    (track : Track σ) :
    setting.run ⟨stack, .failing failure, track⟩ =
      setting.complete (setting.fail stack failure track) :=
  setting.run_eq_complete_step _

theorem run_matching_nil {setting : Setting σ} {stack : Stack} {track : Track σ}
    (h : stack.top.rest = []) :
    setting.run ⟨stack, .matching, track⟩ = setting.complete (setting.finish stack track) := by
  rw [run_eq_complete_step]
  simp only [step, h]

theorem run_matching_cons {setting : Setting σ} {stack : Stack} {track : Track σ}
    {node : Node} {rest : List Node} (h : stack.top.rest = node :: rest) :
    setting.run ⟨stack, .matching, track⟩ =
      setting.complete (setting.attempt stack node track) := by
  rw [run_eq_complete_step]
  simp only [step, h]

/-- Going back on the machine is going back by recursion, if what follows agrees. -/
theorem complete_rewindThen {setting : Setting σ} {checkpoint : Checkpoint}
    {track : Track σ} {goOn : Track σ → Step σ} {goOn' : Track σ → Passage σ}
    (resume : Passage σ → Ending × Track σ)
    (hstop : ∀ abort track, resume (.aborted abort, track) = (.aborted abort, track))
    (hgoOn : ∀ back, setting.complete (goOn back) = resume (goOn' back)) :
    setting.complete (setting.rewindThen checkpoint track goOn) =
      resume (setting.putBack checkpoint track goOn') := by
  unfold rewindThen putBack
  rcases track.rewind setting.listener checkpoint with ⟨_ | refusal, back⟩
  · exact hgoOn back
  · exact (hstop _ _).symm

/-- Telling an event on the machine is telling it by recursion, if what follows
    agrees. -/
theorem complete_emitThen {setting : Setting σ} {event : Event} {track : Track σ}
    {rejected : Failure → Track σ → Step σ} {accepted : Track σ → Step σ}
    {rejected' : Failure → Track σ → Passage σ} {accepted' : Track σ → Passage σ}
    (resume : Passage σ → Ending × Track σ)
    (hstop : ∀ abort track, resume (.aborted abort, track) = (.aborted abort, track))
    (hrejected : ∀ failure told,
      setting.complete (rejected failure told) = resume (rejected' failure told))
    (haccepted : ∀ told, setting.complete (accepted told) = resume (accepted' told)) :
    setting.complete (setting.emitThen event track rejected accepted) =
      resume (setting.tell event track rejected' accepted') := by
  unfold emitThen tell
  rcases track.emit setting.listener event with ⟨_ | refusal | refusal, told⟩
  · exact haccepted told
  · exact hrejected _ told
  · exact (hstop _ _).symm

/-- How a run goes on with a top frame that fails depends on what the frame was
    opened for and where it began, but not on how far it has come. -/
theorem fail_start (setting : Setting σ) (top : Frame) (below : List Frame) (room : Nat)
    (failure : Failure) (track : Track σ) :
    setting.fail ⟨top, below, room⟩ failure track =
      setting.fail ⟨.start top.origin [] top.entry, below, room⟩ failure track := by
  obtain ⟨origin, rest, passes, taken, attempt, entry⟩ := top
  rcases origin with _ | name | ⟨failed, _ | ⟨next, later⟩⟩ <;> rfl

theorem finishRule_start (setting : Setting σ) (top : Frame) (below : List Frame) (room : Nat)
    (name : String) (track : Track σ) :
    setting.complete (setting.finishRule ⟨top, below, room⟩ name track) =
      setting.complete
        (setting.finishRule ⟨.start top.origin [] top.entry, below, room⟩ name track) := by
  unfold finishRule emitThen
  rcases track.emit setting.listener (.leave name) with ⟨_ | refusal | refusal, told⟩
  · rfl
  · show setting.run _ = setting.run _
    rw [run_failing, run_failing, fail_start]
  · rfl

/-- Likewise for a top frame whose sequence has come out. -/
theorem settle_start (setting : Setting σ) (top : Frame) (below : List Frame) (room : Nat)
    (passage : Passage σ) :
    setting.settle ⟨top, below, room⟩ passage =
      setting.settle ⟨.start top.origin [] top.entry, below, room⟩ passage := by
  rcases passage with ⟨_ | failure | abort, track⟩
  · obtain ⟨origin, rest, passes, taken, attempt, entry⟩ := top
    cases origin with
    | root => exact setting.finishRule_start _ below room rootName track
    | rule name => exact setting.finishRule_start _ below room name track
    | branch failed later => rfl
  · rw [settle, settle, fail_start]
  · rfl

-- ============================================================================
-- Attempts
-- ============================================================================

/-- The stack above which an attempt at `node` by a reader goes on. -/
structure Attempting (stack : Stack) (node : Node) (reader : Reader) : Prop where
  cursor : ∃ rest, stack.top.rest = node :: rest
  attempt_eq : stack.top.attempt = reader.checkpoint

variable {stack : Stack} {node : Node} {track : Track σ}

theorem pop?_of_attempting {reader : Reader} (h : Attempting stack node reader) (frame : Frame)
    {room : Nat} (hroom : stack.room = room + 1) :
    Stack.pop? ⟨frame, stack.top :: stack.below, room⟩ = some (stack, node) := by
  obtain ⟨rest, hrest⟩ := h.cursor
  obtain ⟨top, below, _⟩ := stack
  dsimp only at hrest hroom
  subst hroom
  simp only [Stack.pop?, hrest]

theorem complete_attemptTerminal (setting : Setting σ) {pattern : Terminal}
    (h : Attempting stack node track.reader) :
    setting.complete (setting.attemptTerminal stack node pattern track) =
      setting.settleAttempt stack node
        (setting.matchTerminal node.modifiers.adjacent pattern track, stack.top.taken) := by
  let resume : Passage σ → Ending × Track σ := fun passage =>
    setting.settleAttempt stack node (passage, stack.top.taken)
  unfold attemptTerminal matchTerminal
  rcases pattern.matchAt node.modifiers.adjacent track.reader with miss | ⟨matched, reader⟩
  · rfl
  · refine complete_emitThen resume (fun _ _ => rfl) ?_ ?_
    · intro failure told
      rw [h.attempt_eq]
      exact complete_rewindThen resume (fun _ _ => rfl) (fun _ => rfl)
    · intro told
      rfl

/-- What a rule comes to is what the attempt at a reference to it comes to. -/
theorem settle_rule (setting : Setting σ) (name : String) (nodes : List Node) {room : Nat}
    (h : Attempting stack node track.reader) (hroom : stack.room = room + 1)
    (passage : Passage σ) :
    setting.settle
        ⟨.start (.rule name) nodes stack.top.attempt, stack.top :: stack.below, room⟩ passage =
      setting.settleAttempt stack node
        ((setting.leaveRule name track.reader.checkpoint passage).closeRule,
          stack.top.taken) := by
  let pushed : Stack :=
    ⟨.start (.rule name) nodes stack.top.attempt, stack.top :: stack.below, room⟩
  have hpop : pushed.pop? = some (stack, node) := pop?_of_attempting h _ hroom
  let resume : Passage σ → Ending × Track σ := fun passage =>
    setting.settleAttempt stack node (passage.closeRule, stack.top.taken)
  have hfail : ∀ failure track', setting.complete (setting.fail pushed failure track') =
      resume (setting.failAt track.reader.checkpoint failure track') := by
    intro failure track'
    rw [← h.attempt_eq]
    refine complete_rewindThen resume (fun _ _ => rfl) ?_
    intro back
    simp only [Stack.giveUp, hpop]
    rfl
  rcases passage with ⟨_ | failure | abort, after⟩
  · show setting.complete (setting.finishRule pushed name after) =
      resume (setting.leaveRule name track.reader.checkpoint (.matched, after))
    rw [finishRule, leaveRule]
    refine complete_emitThen resume (fun _ _ => rfl) ?_ ?_
    · intro failure told
      exact (setting.run_failing _ _ _).trans (hfail _ _)
    · intro told
      simp only [closeRule, hpop]
      rfl
  · exact hfail failure after
  · rfl

/-- How a rule's or a branch's sequence is matched one level deeper. -/
def Deeper (setting : Setting σ) (room : Nat) (body : List Node → Track σ → Passage σ) : Prop :=
  ∀ (origin : Origin) (nodes : List Node) (entry : Checkpoint) (below : List Frame)
    (track : Track σ),
    setting.run ⟨⟨.start origin nodes entry, below, room⟩, .matching, track⟩ =
      setting.settle ⟨.start origin nodes entry, below, room⟩ (body nodes track)

theorem complete_attemptRule {setting : Setting σ} {name : String} {nodes : List Node} {room : Nat}
    {body : List Node → Track σ → Passage σ} (hbody : setting.Deeper room body)
    (h : Attempting stack node track.reader) (hroom : stack.room = room + 1)
    (hnodes : setting.rules.nodes? name = some nodes) :
    setting.complete (setting.attemptRule stack name track) =
      setting.settleAttempt stack node
        (setting.matchRule name (body nodes) track, stack.top.taken) := by
  let pushed : Stack :=
    ⟨.start (.rule name) nodes stack.top.attempt, stack.top :: stack.below, room⟩
  have hpush : stack.push? (.start (.rule name) nodes stack.top.attempt) = some pushed := by
    simp only [Stack.push?, hroom]
    rfl
  let resume : Passage σ → Ending × Track σ := fun passage =>
    setting.settleAttempt stack node (passage.closeRule, stack.top.taken)
  unfold attemptRule
  simp only [hnodes, hpush]
  show _ = resume (setting.tell (.enter name) (track.openRule name) _ _)
  refine complete_emitThen resume (fun _ _ => rfl) ?_ ?_
  · intro failure told
    have hsettle := setting.settle_rule name nodes h hroom (.failed failure, told.offerHere failure)
    exact (setting.run_failing pushed failure _).trans hsettle
  · intro told
    exact (hbody _ _ _ _ _).trans (setting.settle_rule name nodes h hroom _)

/-- The first branch to match decides what an alternation comes to. -/
theorem complete_finishBranch (setting : Setting σ) {modifiers : Modifiers} {span : Span}
    {branches : List (List Node)} {onceEach : Bool} {room : Nat} {origin : Origin}
    {nodes : List Node}
    (h : Attempting stack (.alternation modifiers span branches onceEach) track.reader)
    (hroom : stack.room = room + 1) (index : Nat) (after : Track σ) :
    setting.complete
        (setting.finishBranch
          ⟨.start origin nodes stack.top.attempt, stack.top :: stack.below, room⟩ index after) =
      setting.settleAttempt stack (.alternation modifiers span branches onceEach)
        (setting.takeBranch track.reader.checkpoint onceEach stack.top.taken
          ((.matched, after), index)) := by
  let resume : Passage σ → Ending × Track σ := fun passage =>
    setting.settleAttempt stack (.alternation modifiers span branches onceEach)
      (passage, stack.top.taken)
  unfold finishBranch
  rw [pop?_of_attempting h _ hroom, takeBranch, ← h.attempt_eq]
  cases onceEach with
  | false => rfl
  | true =>
      simp only [Node.isOnceEach, if_true]
      split
      · exact complete_rewindThen resume (fun _ _ => rfl) (fun _ => rfl)
      · rfl

/-- What the branches that are left come to is what the attempt at their alternation
    comes to. -/
theorem run_branches {setting : Setting σ} {modifiers : Modifiers} {span : Span}
    {branches : List (List Node)} {onceEach : Bool} {room : Nat}
    {body : List Node → Track σ → Passage σ} (hbody : setting.Deeper room body)
    (h : Attempting stack (.alternation modifiers span branches onceEach) track.reader)
    (hroom : stack.room = room + 1) (branch : List Node) (later : List (List Node))
    (failed : List Failure) (now : Track σ) :
    setting.run
        ⟨⟨.start (.branch failed later) branch stack.top.attempt, stack.top :: stack.below, room⟩,
          .matching, now⟩ =
      setting.settleAttempt stack (.alternation modifiers span branches onceEach)
        (setting.takeBranch track.reader.checkpoint onceEach stack.top.taken
          (setting.matchBranches track.reader.checkpoint body failed (branch :: later) now)) := by
  induction later generalizing branch failed now with
  | nil =>
      rw [hbody, matchBranches]
      rcases body branch now with ⟨_ | failure | abort, after⟩
      · exact setting.complete_finishBranch h hroom failed.length after
      · rw [← h.attempt_eq]
        show setting.complete (setting.rewindThen stack.top.attempt after _) = _
        unfold rewindThen
        rcases hrewind : after.rewind setting.listener stack.top.attempt with ⟨_ | refusal, back⟩
        · simp only [Stack.giveUp, pop?_of_attempting h _ hroom, hrewind]
          rfl
        · simp only [hrewind]
          rfl
      · rfl
  | cons next later ih =>
      rw [hbody, matchBranches]
      rcases body branch now with ⟨_ | failure | abort, after⟩
      · exact setting.complete_finishBranch h hroom failed.length after
      · rw [← h.attempt_eq]
        show setting.complete (setting.rewindThen stack.top.attempt after _) = _
        unfold rewindThen
        rcases hrewind : after.rewind setting.listener stack.top.attempt with ⟨_ | refusal, back⟩
        · simp only [hrewind]
          rw [← h.attempt_eq] at ih
          exact ih next (failure :: failed) back
        · simp only [hrewind]
          rfl
      · rfl

theorem complete_attemptAlternation {setting : Setting σ} {modifiers : Modifiers}
    {span : Span} {first : List Node} {later : List (List Node)} {onceEach : Bool} {room : Nat}
    {body : List Node → Track σ → Passage σ} (hbody : setting.Deeper room body)
    (h : Attempting stack (.alternation modifiers span (first :: later) onceEach) track.reader)
    (hroom : stack.room = room + 1) :
    setting.complete
        (setting.attemptAlternation stack (.alternation modifiers span (first :: later) onceEach)
          (first :: later) track) =
      setting.settleAttempt stack (.alternation modifiers span (first :: later) onceEach)
        (setting.matchAlternation body (first :: later) onceEach stack.top.taken track) := by
  have hpush : stack.push? (.start (.branch [] later) first stack.top.attempt) =
      some ⟨.start (.branch [] later) first stack.top.attempt, stack.top :: stack.below, room⟩ := by
    simp only [Stack.push?, hroom]
  simp only [attemptAlternation, hpush]
  exact run_branches hbody h hroom first later [] track

-- ============================================================================
-- Sequences
-- ============================================================================

/-- A sequence whose first element has matched `passes` times already. -/
def matchFrom (attempt : Node → List Nat → Track σ → Attempt σ) (passes : Nat)
    (taken : List Nat) : List Node → Track σ → Passage σ
  | [], track => (.matched, track)
  | node :: rest, track =>
    match matchElement (attempt node) node passes taken track with
    | (.matched, track) => matchSequence attempt rest track
    | passage => passage

theorem matchFrom_start (attempt : Node → List Nat → Track σ → Attempt σ) (nodes : List Node)
    (track : Track σ) : matchFrom attempt 0 [] nodes track = matchSequence attempt nodes track := by
  cases nodes with
  | nil => rfl
  | cons node rest => rfl

/-- What attempts at elements come to on the machine, as far as `room` goes. -/
def Attempts (setting : Setting σ) (room : Nat) : Prop :=
  ∀ (stack : Stack) (node : Node) (track : Track σ), stack.room = room →
    (∃ rest, stack.top.rest = node :: rest) →
    setting.complete (setting.attempt stack node track) =
      setting.settleAttempt (stack.withTop { stack.top with attempt := track.reader.checkpoint })
        node (setting.matchNode room node stack.top.taken track)

theorem attempts_of_deeper {setting : Setting σ} {room : Nat}
    (hdeeper : ∀ room', room = room' + 1 →
      setting.Deeper room' (matchSequence (setting.matchNode room'))) :
    setting.Attempts room := by
  intro stack node track hroom hrest
  let attempted := stack.withTop { stack.top with attempt := track.reader.checkpoint }
  have h : Attempting attempted node track.reader := ⟨hrest, rfl⟩
  have hfull : ∀ frame, room = 0 → attempted.push? frame = none := by
    intro frame hzero
    have : attempted.room = 0 := hroom.trans hzero
    simp only [Stack.push?, this]
  cases node with
  | terminal modifiers span pattern =>
      rw [matchNode]
      exact setting.complete_attemptTerminal h
  | ref modifiers span name =>
      show setting.complete (setting.attemptRule attempted name track) = _
      unfold matchNode
      dsimp only
      cases hnodes : setting.rules.nodes? name with
      | none =>
          simp only [attemptRule, hnodes]
          rfl
      | some nodes =>
          cases room with
          | zero =>
              simp only [attemptRule, hnodes, hfull _ rfl]
              rfl
          | succ room => exact complete_attemptRule (hdeeper room rfl) h hroom hnodes
  | alternation modifiers span branches onceEach =>
      show setting.complete (setting.attemptAlternation attempted _ branches track) = _
      unfold matchNode
      cases branches with
      | nil => rfl
      | cons first later =>
          cases room with
          | zero =>
              simp only [attemptAlternation, hfull _ rfl]
              rfl
          | succ room => exact complete_attemptAlternation (hdeeper room rfl) h hroom

theorem complete_afterMatch (setting : Setting σ) (stack : Stack) (node : Node)
    (track : Track σ) :
    setting.complete (stack.afterMatch node track) =
      if node.modifiers.repeated then
        if track.reader.remaining < track.reader.stream.remaining stack.top.attempt.position then
          setting.run ⟨stack.withTop stack.top.countPass, .matching, track⟩
        else (.aborted (.emptyRepetition node), track)
      else setting.run ⟨stack.withTop stack.top.advance, .matching, track⟩ := by
  unfold Stack.afterMatch
  split
  · split <;> rfl
  · rfl

theorem complete_afterFailure (setting : Setting σ) (stack : Stack) (node : Node)
    (failure : Failure) (track : Track σ) :
    setting.complete (stack.afterFailure node failure track) =
      if stack.top.absorbs node.modifiers then
        setting.run ⟨stack.withTop stack.top.advance, .matching, track⟩
      else if node.modifiers.fatal then (.aborted (.fatalElement failure), track)
      else setting.settle stack (.failed failure, track) := by
  unfold Stack.afterFailure
  split
  · rfl
  · split
    · rfl
    · exact setting.run_failing stack failure track

/-- What becomes of an element that is attempted, if one more match of it goes on as
    by recursion, and so do the elements behind it. -/
theorem settleAttempt_eq_settle {setting : Setting σ} {room : Nat} {origin : Origin}
    {node : Node} {rest : List Node} {passes : Nat} {taken : List Nat} {entry : Checkpoint}
    {below : List Frame} {track : Track σ}
    (hagain : ∀ (taken : List Nat) (after : Track σ),
      after.reader.remaining < track.reader.remaining →
      setting.run ⟨⟨⟨origin, node :: rest, passes + 1, taken, track.reader.checkpoint, entry⟩,
          below, room⟩, .matching, after⟩ =
        setting.settle ⟨.start origin [] entry, below, room⟩
          (matchFrom (setting.matchNode room) (passes + 1) taken (node :: rest) after))
    (hnext : ∀ after : Track σ,
      setting.run ⟨⟨⟨origin, rest, 0, [], track.reader.checkpoint, entry⟩, below, room⟩,
          .matching, after⟩ =
        setting.settle ⟨.start origin [] entry, below, room⟩
          (matchSequence (setting.matchNode room) rest after)) :
    setting.settleAttempt
        ⟨⟨origin, node :: rest, passes, taken, track.reader.checkpoint, entry⟩, below, room⟩ node
        (setting.matchNode room node taken track) =
      setting.settle ⟨.start origin [] entry, below, room⟩
        (matchFrom (setting.matchNode room) passes taken (node :: rest) track) := by
  have hstream := (setting.restores_matchNode room node taken track).leads.stream_eq
  rw [matchFrom, matchElement]
  rcases hresult : setting.matchNode room node taken track with
    ⟨⟨_ | failure | abort, after⟩, taken'⟩
  · rw [hresult] at hstream
    have hbefore : after.reader.stream.remaining track.reader.position =
        track.reader.remaining := congrArg (·.remaining track.reader.position) hstream
    rw [settleAttempt, complete_afterMatch]
    by_cases hrepeated : node.modifiers.repeated = true
    · rw [if_pos hrepeated]
      simp only [if_pos hrepeated]
      by_cases hfewer : after.reader.remaining < track.reader.remaining
      · rw [if_pos (hbefore ▸ hfewer)]
        simp only [if_pos hfewer]
        exact hagain taken' after hfewer
      · rw [if_neg (hbefore ▸ hfewer)]
        simp only [if_neg hfewer]
        rfl
    · rw [if_neg hrepeated]
      simp only [if_neg hrepeated]
      exact hnext after
  · rw [settleAttempt, complete_afterFailure, Frame.absorbs]
    by_cases habsorbs : (node.modifiers.repeated && decide (0 < passes) ||
        node.modifiers.optional) = true
    · rw [if_pos habsorbs]
      simp only [if_pos habsorbs]
      exact hnext after
    · rw [if_neg habsorbs]
      simp only [if_neg habsorbs]
      by_cases hfatal : node.modifiers.fatal = true
      · rw [if_pos hfatal]
        simp only [if_pos hfatal]
        rfl
      · rw [if_neg hfatal]
        simp only [if_neg hfatal]
        exact setting.settle_start _ below room (.failed failure, after)
  · rfl

/-- A run whose top frame has a sequence left to match goes on as that sequence comes
    out by recursion, however often its first element has matched already. -/
theorem run_eq_settle_of_attempts {setting : Setting σ} {room : Nat}
    (hattempts : setting.Attempts room) (origin : Origin) (entry : Checkpoint)
    (below : List Frame) (nodes : List Node) (passes : Nat) (taken : List Nat)
    (attempt : Checkpoint) (track : Track σ) :
    setting.run ⟨⟨⟨origin, nodes, passes, taken, attempt, entry⟩, below, room⟩, .matching, track⟩ =
      setting.settle ⟨.start origin [] entry, below, room⟩
        (matchFrom (setting.matchNode room) passes taken nodes track) := by
  induction nodes generalizing passes taken attempt track with
  | nil =>
      rw [run_matching_nil rfl, matchFrom]
      exact setting.settle_start _ below room (.matched, track)
  | cons node rest ih =>
      -- A repeated element is attempted again only with fewer tokens left.
      induction hremaining : track.reader.remaining using Nat.strongRecOn
        generalizing passes taken attempt track with
      | ind remaining again =>
          rw [run_matching_cons rfl, hattempts _ node track rfl ⟨rest, rfl⟩]
          apply settleAttempt_eq_settle
          · intro taken' after hfewer
            exact again _ (hremaining ▸ hfewer) _ _ _ _ rfl
          · intro after
            rw [ih, matchFrom_start]

/-- A frame that has just been opened is matched as its sequence is by recursion. -/
theorem deeper_matchSequence (setting : Setting σ) (room : Nat) :
    setting.Deeper room (matchSequence (setting.matchNode room)) := by
  induction room with
  | zero =>
      intro origin nodes entry below track
      have hattempts : setting.Attempts 0 := attempts_of_deeper fun _ h => nomatch h
      rw [Frame.start, run_eq_settle_of_attempts hattempts, matchFrom_start]
      exact (setting.settle_start ⟨origin, nodes, 0, [], entry, entry⟩ below 0 _).symm
  | succ room ih =>
      intro origin nodes entry below track
      have hattempts : setting.Attempts (room + 1) := by
        refine attempts_of_deeper fun room' hroom => ?_
        obtain rfl : room = room' := by omega
        exact ih
      rw [Frame.start, run_eq_settle_of_attempts hattempts, matchFrom_start]
      exact (setting.settle_start ⟨origin, nodes, 0, [], entry, entry⟩ below (room + 1) _).symm

-- ============================================================================
-- Whole runs
-- ============================================================================

/-- What the rule that matching begins with comes to is how the run ends. -/
theorem settle_root (setting : Setting σ) (nodes : List Node) (entry : Checkpoint) (room : Nat)
    (passage : Passage σ) :
    setting.settle ⟨.start .root nodes entry, [], room⟩ passage =
      setting.leaveRule rootName entry passage := by
  have hfail : ∀ failure track,
      setting.complete (setting.fail ⟨.start .root nodes entry, [], room⟩ failure track) =
        setting.failAt entry failure track :=
    fun failure track => complete_rewindThen id (fun _ _ => rfl) (fun _ => rfl)
  rcases passage with ⟨_ | failure | abort, after⟩
  · show setting.complete (setting.finishRule _ rootName after) =
      setting.leaveRule rootName entry (.matched, after)
    rw [finishRule, leaveRule]
    refine complete_emitThen id (fun _ _ => rfl) ?_ (fun _ => rfl)
    intro failure told
    exact (setting.run_failing _ _ _).trans (hfail failure _)
  · exact hfail failure after
  · rfl

/-- A run of the machine from its first step to its last comes to what matching by
    recursion comes to. -/
theorem complete_start (setting : Setting σ) (reader : Reader) (memory : σ) :
    setting.complete (setting.start reader memory) = setting.matchRoot reader memory := by
  unfold start matchRoot
  rcases setting.rules.nodes? rootName with _ | nodes
  · rfl
  rcases setting.limit with _ | room
  · rfl
  · refine complete_emitThen id (fun _ _ => rfl) ?_ ?_
    · intro failure told
      exact (setting.run_failing _ _ _).trans
        (setting.settle_root nodes reader.checkpoint room (.failed failure, told))
    · intro told
      exact (setting.deeper_matchSequence room .root nodes reader.checkpoint [] told).trans
        (setting.settle_root nodes reader.checkpoint room _)

end Setting

/-- The events of a match that was recorded, in the order in which they were told. -/
def Result.events (result : Result (σ × List (Context × Event))) : List (Context × Event) :=
  result.memory.2.reverse

namespace RuleTable

theorem matchFrom_eq (rules : RuleTable) (options : Options) (listener : Listener σ)
    (reader : Reader) (memory : σ) :
    rules.matchFrom options listener reader memory =
      rules.matchRecursively options listener reader memory := by
  simp only [matchFrom, matchRecursively, Setting.complete_start]

/-- Whatever the rules, the input, the options and the listener are, matching with an
    explicit stack and matching by recursion have the same outcome, leave the reader
    and the listener's memory the same, and tell the same events in the same order
    and the same contexts. -/
theorem matchFrom_agrees_with_recursion (rules : RuleTable) (options : Options)
    (listener : Listener σ) (reader : Reader) (memory : σ) :
    let run := rules.matchFrom options listener.recording reader (memory, [])
    let recursion := rules.matchRecursively options listener.recording reader (memory, [])
    run.outcome = recursion.outcome ∧ run.reader = recursion.reader ∧
      run.events = recursion.events ∧
      rules.matchFrom options listener reader memory =
        rules.matchRecursively options listener reader memory := by
  intro run recursion
  have heq : run = recursion := rules.matchFrom_eq options listener.recording reader (memory, [])
  refine ⟨?_, ?_, ?_, rules.matchFrom_eq options listener reader memory⟩
  · rw [heq]
  · rw [heq]
  · rw [heq]

end RuleTable

end TokenGrammar
