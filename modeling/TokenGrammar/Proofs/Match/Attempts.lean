/-
  TokenGrammar.Proofs.Match.Attempts

  Attempts at elements, and what comes of them.  An attempt begins when the element is at
  the cursor of the top frame and is to be matched.  A terminal is over at once; for a
  reference or an alternation a frame is opened, and the attempt is over when that frame
  is.  An element fails in one of six ways (`Setting.Fails`) and matches in one of four
  (`Setting.Matches`).

  Main statement: whatever else a step does is no end of an attempt
  (`Setting.brings_step`).
-/

import TokenGrammar.Proofs.Match.Coherence
import TokenGrammar.Proofs.Match.Scanners

namespace TokenGrammar

variable {σ : Type}

-- ============================================================================
-- Ends of attempts
-- ============================================================================

/-- The stack when the element at the cursor of its top frame is attempted at a reader. -/
def Stack.attempting (stack : Stack) (reader : Reader) : Stack :=
  stack.withTop { stack.top with attempt := reader.checkpoint }

/-- The stack when the element at the cursor of the top frame is attempted in a state. -/
def State.attempting (state : State σ) : Stack := state.stack.attempting state.track.reader

namespace Setting

/-- The ways in which an element fails: the step from a state ends the attempt at an element,
    which is at the cursor of the top frame of a stack, and that frame has to do with the
    failure and the track.  Rules fail that the listener does not let begin or end, or that
    have an element that fails. -/
inductive Fails (setting : Setting σ) : State σ → Stack → Node → Failure → Track σ → Prop where
  /-- A terminal misses, and the reader is put back from where its scanner got to. -/
  | miss {stack : Stack} {track : Track σ} {modifiers : Modifiers} {span : Span}
      {pattern : Terminal} {rest : List Node} {miss : Miss} {scanned : Reader}
      (hrest : stack.top.rest = .terminal modifiers span pattern :: rest)
      (hmiss : pattern.scan modifiers.adjacent track.reader = .error miss scanned) :
      Fails setting ⟨stack, .matching, track⟩ (stack.attempting track.reader)
        (.terminal modifiers span pattern) (.mismatch miss.mismatch)
        ((track.withReader (scanned.seek track.reader.checkpoint)).offer miss.position
          (.mismatch miss.mismatch))
  /-- The listener rejects the match of a terminal. -/
  | rejectedToken {stack : Stack} {track told back : Track σ} {modifiers : Modifiers}
      {span : Span} {pattern : Terminal} {rest : List Node} {matched : Matched}
      {scanned : Reader} {refusal : Refusal}
      (hrest : stack.top.rest = .terminal modifiers span pattern :: rest)
      (hmatch : pattern.scan modifiers.adjacent track.reader = .ok matched scanned)
      (hrejected : (track.withReader scanned).emit setting.listener (.token matched) =
        (.rejected refusal, told))
      (hback : (told.offer matched.position (.rejected refusal)).rewind setting.listener
        track.reader.checkpoint = (none, back)) :
      Fails setting ⟨stack, .matching, track⟩ (stack.attempting track.reader)
        (.terminal modifiers span pattern) (.rejected refusal) back
  /-- An alternation has no branches. -/
  | emptyAlternation {stack : Stack} {track : Track σ} {modifiers : Modifiers} {span : Span}
      {onceEach : Bool} {rest : List Node}
      (hrest : stack.top.rest = .alternation modifiers span [] onceEach :: rest) :
      Fails setting ⟨stack, .matching, track⟩ (stack.attempting track.reader)
        (.alternation modifiers span [] onceEach) .emptyAlternation track
  /-- A rule fails. -/
  | rule {stack parent : Stack} {node : Node} {failure : Failure} {track back : Track σ}
      {name : String} (horigin : stack.top.origin = .rule name)
      (hpop : stack.pop? = some (parent, node))
      (hback : track.rewind setting.listener stack.top.entry = (none, back)) :
      Fails setting ⟨stack, .failing failure, track⟩ parent node failure back.closeRule
  /-- The last branch of an alternation fails. -/
  | exhausted {stack parent : Stack} {node : Node} {failure : Failure} {track back : Track σ}
      {failed : List Failure} (horigin : stack.top.origin = .branch failed [])
      (hpop : stack.pop? = some (parent, node))
      (hback : track.rewind setting.listener stack.top.entry = (none, back)) :
      Fails setting ⟨stack, .failing failure, track⟩ parent node
        (.noAlternative (failure :: failed).reverse) back
  /-- A branch has matched that may be taken only once and has been. -/
  | alreadySet {stack parent : Stack} {node : Node} {track back : Track σ}
      {failed : List Failure} {later : List (List Node)} (hrest : stack.top.rest = [])
      (horigin : stack.top.origin = .branch failed later)
      (hpop : stack.pop? = some (parent, node)) (honce : node.isOnceEach = true)
      (htaken : parent.top.taken.contains failed.length = true)
      (hback : track.rewind setting.listener stack.top.entry = (none, back)) :
      Fails setting ⟨stack, .matching, track⟩ parent node (.alreadySet failed.length)
        (back.offerHere (.alreadySet failed.length))

/-- The ways in which an element matches. -/
inductive Matches (setting : Setting σ) : State σ → Stack → Node → Track σ → Prop where
  | terminal {stack : Stack} {track told : Track σ} {modifiers : Modifiers} {span : Span}
      {pattern : Terminal} {rest : List Node} {matched : Matched} {scanned : Reader}
      (hrest : stack.top.rest = .terminal modifiers span pattern :: rest)
      (hmatch : pattern.scan modifiers.adjacent track.reader = .ok matched scanned)
      (haccepted : (track.withReader scanned).emit setting.listener (.token matched) =
        (.accepted, told)) :
      Matches setting ⟨stack, .matching, track⟩ (stack.attempting track.reader)
        (.terminal modifiers span pattern) told
  | rule {stack parent : Stack} {node : Node} {track told : Track σ} {name : String}
      (hrest : stack.top.rest = []) (horigin : stack.top.origin = .rule name)
      (haccepted : track.emit setting.listener (.leave name) = (.accepted, told))
      (hpop : stack.pop? = some (parent, node)) :
      Matches setting ⟨stack, .matching, track⟩ parent node told.closeRule
  /-- A branch matches that may be taken any number of times. -/
  | branch {stack parent : Stack} {node : Node} {track : Track σ} {failed : List Failure}
      {later : List (List Node)} (hrest : stack.top.rest = [])
      (horigin : stack.top.origin = .branch failed later)
      (hpop : stack.pop? = some (parent, node)) (honce : node.isOnceEach = false) :
      Matches setting ⟨stack, .matching, track⟩ parent node track
  /-- A branch matches that may be taken only once and has not been; it is noted. -/
  | newBranch {stack parent : Stack} {node : Node} {track : Track σ} {failed : List Failure}
      {later : List (List Node)} (hrest : stack.top.rest = [])
      (horigin : stack.top.origin = .branch failed later)
      (hpop : stack.pop? = some (parent, node)) (honce : node.isOnceEach = true)
      (htaken : parent.top.taken.contains failed.length = false) :
      Matches setting ⟨stack, .matching, track⟩
        (parent.withTop (parent.top.take failed.length)) node track

/-- What the step from a state may bring: the end of an attempt, or something else. -/
inductive Brings (setting : Setting σ) (state : State σ) : Step σ → Prop where
  | failed {parent : Stack} {node : Node} {failure : Failure} {track : Track σ}
      (h : setting.Fails state parent node failure track) :
      Brings setting state (parent.afterFailure node failure track)
  | matched {parent : Stack} {node : Node} {track : Track σ}
      (h : setting.Matches state parent node track) :
      Brings setting state (parent.afterMatch node track)
  /-- The first branch of the alternation at the cursor is opened. -/
  | branch {pushed : Stack} {first : List Node} {later : List (List Node)}
      (hphase : state.phase = .matching) (hrest : state.stack.top.rest ≠ [])
      (hpush : state.attempting.push?
        (.start (.branch [] later) first state.track.reader.checkpoint) = some pushed) :
      Brings setting state (.matching pushed state.track)
  /-- The rule that the element at the cursor refers to is opened. -/
  | rule {pushed : Stack} {name : String} {nodes : List Node} {told : Track σ}
      (hphase : state.phase = .matching) (hrest : state.stack.top.rest ≠ [])
      (hpush : state.attempting.push?
        (.start (.rule name) nodes state.track.reader.checkpoint) = some pushed)
      (haccepted : (state.track.openRule name).emit setting.listener (.enter name) =
        (.accepted, told)) :
      Brings setting state (.matching pushed told)
  /-- The listener does not let that rule begin. -/
  | rejectedEnter {pushed : Stack} {name : String} {nodes : List Node} {told : Track σ}
      {refusal : Refusal} (hphase : state.phase = .matching) (hrest : state.stack.top.rest ≠ [])
      (hpush : state.attempting.push?
        (.start (.rule name) nodes state.track.reader.checkpoint) = some pushed)
      (hrejected : (state.track.openRule name).emit setting.listener (.enter name) =
        (.rejected refusal, told)) :
      Brings setting state
        (.failing pushed (.rejected refusal) (told.offerHere (.rejected refusal)))
  /-- The listener does not let the rule of the top frame end. -/
  | rejectedLeave {name : String} {told : Track σ} {refusal : Refusal}
      (hrest : state.stack.top.rest = [])
      (hrejected : state.track.emit setting.listener (.leave name) = (.rejected refusal, told)) :
      Brings setting state
        (.failing state.stack (.rejected refusal) (told.offerHere (.rejected refusal)))
  /-- An alternation goes on to its next branch. -/
  | nextBranch {failure : Failure} {failed : List Failure} {next : List Node}
      {later : List (List Node)} {back : Track σ}
      (horigin : state.stack.top.origin = .branch failed (next :: later))
      (hback : state.track.rewind setting.listener state.stack.top.entry = (none, back)) :
      Brings setting state (.matching (state.stack.withTop
        (.start (.branch (failure :: failed) later) next state.stack.top.entry)) back)
  | ends {ending : Ending} {track : Track σ} : Brings setting state (.done ending track)

-- ----------------------------------------------------------------------------
-- What a step brings
-- ----------------------------------------------------------------------------

section

variable {setting : Setting σ} {stack : Stack} {track told back : Track σ}

theorem step_of_cons {node : Node} {rest : List Node} (h : stack.top.rest = node :: rest) :
    setting.step ⟨stack, .matching, track⟩ = setting.attempt stack node track := by
  simp only [step, h]

theorem step_of_nil (h : stack.top.rest = []) :
    setting.step ⟨stack, .matching, track⟩ = setting.finish stack track := by
  simp only [step, h]

theorem emitThen_of_accepted {event : Event} {rejected : Failure → Track σ → Step σ}
    {accepted : Track σ → Step σ}
    (h : track.emit setting.listener event = (.accepted, told)) :
    setting.emitThen event track rejected accepted = accepted told := by
  rw [emitThen, h]

theorem emitThen_of_rejected {event : Event} {refusal : Refusal}
    {rejected : Failure → Track σ → Step σ} {accepted : Track σ → Step σ}
    (h : track.emit setting.listener event = (.rejected refusal, told)) :
    setting.emitThen event track rejected accepted = rejected (.rejected refusal) told := by
  rw [emitThen, h]

theorem emitThen_of_stopped {event : Event} {refusal : Refusal}
    {rejected : Failure → Track σ → Step σ} {accepted : Track σ → Step σ}
    (h : track.emit setting.listener event = (.stopped refusal, told)) :
    setting.emitThen event track rejected accepted = .abort (.stopped refusal) told := by
  rw [emitThen, h]

theorem rewindThen_of_rewind {checkpoint : Checkpoint} {goOn : Track σ → Step σ}
    (h : track.rewind setting.listener checkpoint = (none, back)) :
    setting.rewindThen checkpoint track goOn = goOn back := by
  rw [rewindThen, h]

theorem rewindThen_of_stopped {checkpoint : Checkpoint} {refusal : Refusal}
    {goOn : Track σ → Step σ}
    (h : track.rewind setting.listener checkpoint = (some refusal, back)) :
    setting.rewindThen checkpoint track goOn = .abort (.stopped refusal) back := by
  rw [rewindThen, h]

/-- A terminal that misses fails with the reader where it was. -/
theorem attemptTerminal_of_error {node : Node} {pattern : Terminal} {miss : Miss}
    {scanned : Reader}
    (h : pattern.scan node.modifiers.adjacent track.reader = .error miss scanned) :
    setting.attemptTerminal stack node pattern track =
      stack.afterFailure node (.mismatch miss.mismatch)
        ((track.withReader (scanned.seek track.reader.checkpoint)).offer miss.position
          (.mismatch miss.mismatch)) := by
  have honward : track.reader.Onward scanned := Terminal.onward_of_scan h
  rw [attemptTerminal, Terminal.matchAt_eq_outcome, h, honward.seek_checkpoint]
  rfl

/-- A terminal that is found is told to the listener. -/
theorem attemptTerminal_of_ok {node : Node} {pattern : Terminal} {matched : Matched}
    {scanned : Reader}
    (h : pattern.scan node.modifiers.adjacent track.reader = .ok matched scanned) :
    setting.attemptTerminal stack node pattern track =
      setting.emitThen (.token matched) (track.withReader scanned)
        (fun failure track =>
          setting.rewindThen stack.top.attempt (track.offer matched.position failure)
            (stack.afterFailure node failure))
        (stack.afterMatch node) := by
  rw [attemptTerminal, Terminal.matchAt_eq_outcome, h]
  rfl

end

variable {setting : Setting σ} {state : State σ} {parent : Stack} {node : Node}
  {failure : Failure} {track : Track σ}

/-- If an element fails, the frame that it belongs to has to do with it. -/
theorem Fails.step_eq (h : setting.Fails state parent node failure track) :
    setting.step state = parent.afterFailure node failure track := by
  cases h with
  | miss hrest hmiss =>
      rw [step_of_cons hrest]
      exact attemptTerminal_of_error hmiss
  | rejectedToken hrest hmatch hrejected hback =>
      rw [step_of_cons hrest]
      refine (attemptTerminal_of_ok hmatch).trans ?_
      rw [emitThen_of_rejected hrejected]
      exact rewindThen_of_rewind hback
  | emptyAlternation hrest =>
      rw [step_of_cons hrest]
      rfl
  | rule horigin hpop hback =>
      simp only [step, fail, horigin]
      rw [rewindThen_of_rewind hback, Stack.giveUp, hpop]
  | exhausted horigin hpop hback =>
      simp only [step, fail, horigin]
      rw [rewindThen_of_rewind hback, Stack.giveUp, hpop]
  | alreadySet hrest horigin hpop honce htaken hback =>
      rw [step_of_nil hrest]
      simp only [finish, horigin, finishBranch, hpop, honce, htaken, if_true]
      exact rewindThen_of_rewind hback

/-- If an element matches, the frame that it belongs to goes on. -/
theorem Matches.step_eq (h : setting.Matches state parent node track) :
    setting.step state = parent.afterMatch node track := by
  cases h with
  | terminal hrest hmatch haccepted =>
      rw [step_of_cons hrest]
      refine (attemptTerminal_of_ok hmatch).trans ?_
      exact emitThen_of_accepted haccepted
  | rule hrest horigin haccepted hpop =>
      rw [step_of_nil hrest]
      simp only [finish, horigin, finishRule]
      rw [emitThen_of_accepted haccepted, closeRule, horigin]
      simp only [hpop]
  | branch hrest horigin hpop honce =>
      rw [step_of_nil hrest]
      simp only [finish, horigin, finishBranch, hpop, honce, Bool.false_eq_true, if_false]
  | newBranch hrest horigin hpop honce htaken =>
      rw [step_of_nil hrest]
      simp only [finish, horigin, finishBranch, hpop, honce, htaken, if_true, Bool.false_eq_true,
        if_false]

theorem Fails.brings (h : setting.Fails state parent node failure track) :
    setting.Brings state (setting.step state) := by
  rw [h.step_eq]
  exact .failed h

theorem Matches.brings (h : setting.Matches state parent node track) :
    setting.Brings state (setting.step state) := by
  rw [h.step_eq]
  exact .matched h

variable {stack : Stack}

theorem brings_attempt {node : Node} {rest : List Node} (hrest : stack.top.rest = node :: rest) :
    setting.Brings ⟨stack, .matching, track⟩ (setting.step ⟨stack, .matching, track⟩) := by
  have hne : stack.top.rest ≠ [] := by rw [hrest]; exact List.cons_ne_nil _ _
  cases node with
  | terminal modifiers span pattern =>
      rcases hscan : pattern.scan modifiers.adjacent track.reader with
        ⟨matched, scanned⟩ | ⟨miss, scanned⟩
      · rcases hemit : (track.withReader scanned).emit setting.listener (.token matched) with
          ⟨_ | refusal | refusal, told⟩
        · exact (Matches.terminal hrest hscan hemit).brings
        · rcases hrewind : (told.offer matched.position (.rejected refusal)).rewind
            setting.listener track.reader.checkpoint with ⟨_ | stopping, back⟩
          · exact (Fails.rejectedToken hrest hscan hemit hrewind).brings
          · have hover : setting.step ⟨stack, .matching, track⟩ =
                .abort (.stopped stopping) back := by
              rw [step_of_cons hrest]
              refine (attemptTerminal_of_ok hscan).trans ?_
              rw [emitThen_of_rejected hemit]
              exact rewindThen_of_stopped hrewind
            rw [hover]
            exact .ends
        · rw [step_of_cons hrest, attempt, attemptTerminal_of_ok hscan, emitThen_of_stopped hemit]
          exact .ends
      · exact (Fails.miss hrest hscan).brings
  | ref modifiers span name =>
      rw [step_of_cons hrest]
      show setting.Brings _ (setting.attemptRule (stack.attempting track.reader) name track)
      unfold attemptRule
      split
      · exact .ends
      · split
        · exact .ends
        · next pushed hpush =>
          rcases hemit : (track.openRule name).emit setting.listener (.enter name) with
            ⟨_ | refusal | refusal, told⟩
          · rw [emitThen_of_accepted hemit]
            exact .rule rfl hne hpush hemit
          · rw [emitThen_of_rejected hemit]
            exact .rejectedEnter rfl hne hpush hemit
          · rw [emitThen_of_stopped hemit]
            exact .ends
  | alternation modifiers span branches onceEach =>
      cases branches with
      | nil => exact (Fails.emptyAlternation hrest).brings
      | cons first later =>
          rw [step_of_cons hrest]
          show setting.Brings _ (setting.attemptAlternation (stack.attempting track.reader)
            (.alternation modifiers span (first :: later) onceEach) (first :: later) track)
          unfold attemptAlternation
          dsimp only
          split
          · exact .ends
          · next pushed hpush => exact .branch rfl hne hpush

theorem brings_finish (h : setting.Coherent stack track.reader track.scopes)
    (hrest : stack.top.rest = []) :
    setting.Brings ⟨stack, .matching, track⟩ (setting.step ⟨stack, .matching, track⟩) := by
  have hleave (name : String) (hclose : ∀ told, track.emit setting.listener (.leave name) =
      (.accepted, told) → setting.Brings ⟨stack, .matching, track⟩ (closeRule stack told)) :
      setting.Brings ⟨stack, .matching, track⟩ (setting.finishRule stack name track) := by
    unfold finishRule
    rcases hemit : track.emit setting.listener (.leave name) with ⟨_ | refusal | refusal, told⟩
    · rw [emitThen_of_accepted hemit]
      exact hclose told hemit
    · rw [emitThen_of_rejected hemit]
      exact .rejectedLeave hrest hemit
    · rw [emitThen_of_stopped hemit]
      exact .ends
  rcases horigin : stack.top.origin with _ | name | ⟨failed, later⟩
  · rw [step_of_nil hrest, finish, horigin]
    refine hleave rootName fun told _ => ?_
    rw [closeRule, horigin]
    exact .ends
  all_goals
    obtain ⟨parent, node, hcloses⟩ := h.exists_closes (by simp [horigin])
    have hpop := hcloses.pop?_eq
  · have hstep : setting.step ⟨stack, .matching, track⟩ = setting.finishRule stack name track := by
      rw [step_of_nil hrest, finish, horigin]
    rw [hstep]
    refine hleave name fun told hemit => ?_
    have hmatches := Matches.rule hrest horigin hemit hpop
    rw [closeRule, horigin]
    simp only [hpop]
    exact .matched hmatches
  · cases honce : node.isOnceEach with
    | false => exact (Matches.branch hrest horigin hpop honce).brings
    | true =>
        cases htaken : parent.top.taken.contains failed.length with
        | false => exact (Matches.newBranch hrest horigin hpop honce htaken).brings
        | true =>
            rcases hrewind : track.rewind setting.listener stack.top.entry with ⟨_ | stopping, back⟩
            · exact (Fails.alreadySet hrest horigin hpop honce htaken hrewind).brings
            · rw [step_of_nil hrest]
              simp only [finish, horigin, finishBranch, hpop, honce, htaken, if_true]
              rw [rewindThen_of_stopped hrewind]
              exact .ends

theorem brings_fail (h : setting.Coherent stack track.reader track.scopes) (failure : Failure) :
    setting.Brings ⟨stack, .failing failure, track⟩
      (setting.step ⟨stack, .failing failure, track⟩) := by
  rcases hrewind : track.rewind setting.listener stack.top.entry with ⟨_ | stopping, back⟩
  · rcases horigin : stack.top.origin with _ | name | ⟨failed, later⟩
    · simp only [step, fail, horigin]
      rw [rewindThen_of_rewind hrewind]
      exact .ends
    · obtain ⟨parent, node, hcloses⟩ := h.exists_closes (by simp [horigin])
      exact (Fails.rule horigin hcloses.pop?_eq hrewind).brings
    · cases later with
      | nil =>
          obtain ⟨parent, node, hcloses⟩ := h.exists_closes (by simp [horigin])
          exact (Fails.exhausted horigin hcloses.pop?_eq hrewind).brings
      | cons next later =>
          simp only [step, fail, horigin]
          rw [rewindThen_of_rewind hrewind]
          exact .nextBranch horigin hrewind
  · simp only [step, fail]
    split <;>
    · rw [rewindThen_of_stopped hrewind]
      exact .ends

/-- A step ends an attempt, opens a frame, lets the top frame fail or go on to its next
    branch, or is the last one. -/
theorem brings_step (h : setting.Coherent state.stack state.track.reader state.track.scopes) :
    setting.Brings state (setting.step state) := by
  obtain ⟨stack, phase, track⟩ := state
  cases phase with
  | failing failure => exact brings_fail h failure
  | matching =>
      cases hrest : stack.top.rest with
      | nil => exact brings_finish h hrest
      | cons node rest => exact brings_attempt hrest

-- ----------------------------------------------------------------------------
-- The frames behind a step
-- ----------------------------------------------------------------------------

/-- An element that fails has only just been attempted, or a frame was opened for it and is
    closed with the reader back where the frame began. -/
theorem Fails.closes (h : setting.Fails state parent node failure track) :
    (state.phase = .matching ∧ parent = state.attempting ∧
      (∃ rest, state.stack.top.rest = node :: rest) ∧ track.reader = state.track.reader) ∨
    (state.stack.pop? = some (parent, node) ∧ state.stack.top.origin ≠ .root ∧
      track.reader = state.track.reader.seek state.stack.top.entry) := by
  cases h with
  | @miss stack track modifiers span pattern rest miss scanned hrest hmiss =>
      have honward : track.reader.Onward scanned := Terminal.onward_of_scan hmiss
      exact .inl ⟨rfl, rfl, ⟨rest, hrest⟩, honward.seek_checkpoint⟩
  | @rejectedToken stack track told back modifiers span pattern rest matched scanned refusal
      hrest hmatch hrejected hback =>
      have honward : track.reader.Onward scanned := Terminal.onward_of_scan hmatch
      have htold : told.reader = scanned := by
        have hemit := Track.reader_emit setting.listener (.token matched)
          (track.withReader scanned)
        rw [hrejected] at hemit
        exact hemit
      have hreader := Track.reader_rewind setting.listener track.reader.checkpoint
        (told.offer matched.position (.rejected refusal))
      rw [hback, Track.reader_offer, htold, honward.seek_checkpoint] at hreader
      exact .inl ⟨rfl, rfl, ⟨rest, hrest⟩, hreader⟩
  | emptyAlternation hrest => exact .inl ⟨rfl, rfl, ⟨_, hrest⟩, rfl⟩
  | @rule stack _ _ _ track _ _ horigin hpop hback =>
      have hreader := Track.reader_rewind setting.listener stack.top.entry track
      rw [hback] at hreader
      exact .inr ⟨hpop, by simp [horigin], hreader⟩
  | @exhausted stack _ _ _ track _ _ horigin hpop hback =>
      have hreader := Track.reader_rewind setting.listener stack.top.entry track
      rw [hback] at hreader
      exact .inr ⟨hpop, by simp [horigin], hreader⟩
  | @alreadySet stack _ _ track _ _ _ _ horigin hpop _ _ hback =>
      have hreader := Track.reader_rewind setting.listener stack.top.entry track
      rw [hback] at hreader
      exact .inr ⟨hpop, by simp [horigin], hreader⟩

/-- An element that matches is at the cursor of the frame that goes on, and the frames below
    that one are those below the top one, or some of them. -/
theorem Matches.closes (h : setting.Matches state parent node track) :
    (∃ rest, parent.top.rest = node :: rest) ∧ parent.below <:+ state.stack.below := by
  cases h with
  | terminal hrest => exact ⟨⟨_, hrest⟩, List.suffix_refl _⟩
  | rule _ _ _ hpop | branch _ _ hpop | newBranch _ _ hpop =>
      obtain ⟨rest, hcursor⟩ := Stack.exists_rest_of_pop? hpop
      rw [Stack.frames_of_pop? hpop]
      exact ⟨⟨rest, hcursor⟩, List.suffix_cons _ _⟩

end Setting

theorem Stack.below_of_afterFailure {stack : Stack} {node : Node} {failure : Failure}
    {track : Track σ} {after : State σ} (h : stack.afterFailure node failure track = .next after) :
    after.stack.below = stack.below := by
  unfold afterFailure at h
  split at h
  · cases h
    rfl
  · split at h <;> cases h
    rfl

theorem Stack.below_of_afterMatch {stack : Stack} {node : Node} {track : Track σ}
    {after : State σ} (h : stack.afterMatch node track = .next after) :
    after.stack.below = stack.below := by
  unfold afterMatch at h
  split at h
  · split at h <;> cases h
    rfl
  · cases h
    rfl

namespace Setting

variable {setting : Setting σ} {state : State σ}

/-- No step opens a frame but one that attempts the element at the cursor. -/
theorem Brings.below {after : State σ} (h : setting.Brings state (.next after)) :
    after.stack.below <:+ state.stack.below ∨
    (state.phase = .matching ∧ state.stack.top.rest ≠ [] ∧
      after.stack.below = state.attempting.frames) := by
  generalize hstep : Step.next after = step at h
  cases h with
  | failed h =>
      rw [Stack.below_of_afterFailure hstep.symm]
      rcases h.closes with ⟨-, rfl, -, -⟩ | ⟨hpop, -, -⟩
      · exact .inl (List.suffix_refl _)
      · rw [Stack.frames_of_pop? hpop]
        exact .inl (List.suffix_cons _ _)
  | matched h =>
      rw [Stack.below_of_afterMatch hstep.symm]
      exact .inl h.closes.2
  | branch hphase hrest hpush | rule hphase hrest hpush | rejectedEnter hphase hrest hpush =>
      cases hstep
      have hframes := Stack.frames_of_push? hpush
      exact .inr ⟨hphase, hrest, (List.cons.inj hframes).2⟩
  | rejectedLeave | nextBranch =>
      cases hstep
      exact .inl (List.suffix_refl _)
  | ends => cases hstep

end Setting

end TokenGrammar
