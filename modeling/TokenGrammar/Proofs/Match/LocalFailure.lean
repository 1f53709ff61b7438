/-
  TokenGrammar.Proofs.Match.LocalFailure

  What goes wrong with the input during a run, and what becomes of it.  In every state of
  a run at most one thing goes wrong (`Setting.localFailure?`): a terminal misses, a
  listener rejects an event, a branch that may be taken once is taken again.  In the
  order of the states these are the local failures of the run; input that goes on behind
  the match is the last one (`RuleTable.localFailures`).

  Main statement: a step offers the local failure of its state and no other, the frame
  that fails carries it on, or what it carried before, or that an alternation has not
  matched as a whole, and a fatal element stops the run with the reader where the element
  was attempted (`Setting.leaves_step`).
-/

import TokenGrammar.Proofs.Match.Trail

namespace TokenGrammar

variable {σ : Type}

-- ============================================================================
-- Local failures
-- ============================================================================

namespace Setting

/-- The listener's refusal, if it rejects an event. -/
def rejection? (setting : Setting σ) (event : Event) (track : Track σ) : Option Refusal :=
  match (track.emit setting.listener event).1 with
  | .rejected refusal => some refusal
  | _ => none

/-- What goes wrong when a terminal is attempted: it misses, and the failure lies at the
    token that shows it, or the listener rejects the match, and the failure lies at the
    first token of the match. -/
def terminalFailure? (setting : Setting σ) (adjacent : Bool) (pattern : Terminal)
    (track : Track σ) : Option (Reach Failure) :=
  match pattern.matchAt adjacent track.reader with
  | .error miss => some ⟨miss.position, .mismatch miss.mismatch, track.scope⟩
  | .ok (matched, reader) =>
    (setting.rejection? (.token matched) (track.withReader reader)).map fun refusal =>
      ⟨matched.position, .rejected refusal, track.scope⟩

/-- What goes wrong when a rule is opened: the listener rejects that, and the failure
    lies at the next significant token. -/
def enterFailure? (setting : Setting σ) (name : String) (track : Track σ) :
    Option (Reach Failure) :=
  (setting.rejection? (.enter name) (track.openRule name)).map fun refusal =>
    ⟨track.reader.significantPosition, .rejected refusal, name⟩

/-- What goes wrong at the end of a rule: the listener rejects it, and the failure lies
    at the next significant token. -/
def leaveFailure? (setting : Setting σ) (name : String) (track : Track σ) :
    Option (Reach Failure) :=
  (setting.rejection? (.leave name) track).map fun refusal =>
    ⟨track.reader.significantPosition, .rejected refusal, track.scope⟩

/-- What goes wrong at the end of a branch: it may be taken only once and has been, and
    the failure lies at the next significant token from where the branch began. -/
def branchFailure? (stack : Stack) (index : Nat) (track : Track σ) : Option (Reach Failure) :=
  match stack.pop? with
  | none => none
  | some (parent, node) =>
    if node.isOnceEach && parent.top.taken.contains index then
      some ⟨(track.reader.seek stack.top.entry).significantPosition, .alreadySet index,
        track.scope⟩
    else none

/-- What goes wrong with the input in the step from a state, if anything does. -/
def localFailure? (setting : Setting σ) (state : State σ) : Option (Reach Failure) :=
  match state.phase with
  | .failing _ => none
  | .matching =>
    match state.stack.top.rest with
    | .terminal modifiers _ pattern :: _ =>
      setting.terminalFailure? modifiers.adjacent pattern state.track
    | .ref _ _ name :: _ =>
      if (setting.rules.nodes? name).isSome && decide (0 < state.stack.room) then
        setting.enterFailure? name state.track
      else none
    | .alternation _ _ _ _ :: _ => none
    | [] =>
      match state.stack.top.origin with
      | .root => setting.leaveFailure? rootName state.track
      | .rule name => setting.leaveFailure? name state.track
      | .branch failed _ => branchFailure? state.stack failed.length state.track

end Setting

/-- What goes wrong at the end of a run: the input has to end there and does not. -/
def Ending.trailingFailure? (ending : Ending) (requireEnd : Bool) (track : Track σ) :
    Option (Reach Failure) :=
  match ending with
  | .matched =>
    if requireEnd && !track.reader.atEnd then
      some ⟨track.reader.significantPosition, track.trailing, track.scope⟩
    else none
  | _ => none

/-- Everything that goes wrong with the input in a match, in the order in which it
    does, abandoned branches included. -/
def RuleTable.localFailures (rules : RuleTable) (options : Options) (listener : Listener σ)
    (reader : Reader) (memory : σ) : List (Reach Failure) :=
  let setting := rules.setting options listener
  let (ending, track) := rules.lastStep options listener reader memory
  (setting.trail (rules.firstStep options listener reader memory)).filterMap
      setting.localFailure? ++
    (ending.trailingFailure? options.requireEnd track).toList

-- ============================================================================
-- What a step leaves
-- ============================================================================

/-- The failure to keep, when another one may be offered. -/
def Reach.offer? {α : Type} (kept : Option (Reach α)) : Option (Reach α) → Option (Reach α)
  | none => kept
  | some candidate => Reach.offer kept candidate

/-- Whether a failure is that of an alternation as a whole. -/
def Failure.isOfAlternation : Failure → Bool
  | .emptyAlternation => true
  | .noAlternative _ => true
  | _ => false

/-- The element whose attempt the next step may bring to its end, and where the reader
    was when the attempt began. -/
def State.attempted? (state : State σ) : Option (Node × Checkpoint) :=
  match state.phase, state.stack.top.rest with
  | .matching, node :: _ => some (node, state.track.reader.checkpoint)
  | _, _ => state.stack.pop?.map fun (_, node) => (node, state.stack.top.entry)

/-- What a step may leave: the failure that the track keeps, what a frame fails with, and
    which element stops the run, with the reader where. -/
structure Remains where
  kept : Option (Reach Failure)
  carries : Failure → Prop
  stops : Node → Reader → Prop

/-- Whether the listener of a run may stop it with a refusal. -/
def Setting.Halts (setting : Setting σ) (refusal : Refusal) : Prop :=
  ∃ event track, (Track.emit setting.listener event track).1 = .stopped refusal

/-- Whether a step leaves what it may. -/
def Step.Leaves (setting : Setting σ) (remains : Remains) : Step σ → Prop
  | .next ⟨_, .matching, track⟩ => track.reach = remains.kept
  | .next ⟨_, .failing failure, track⟩ => track.reach = remains.kept ∧ remains.carries failure
  | .done .matched track => track.reach = remains.kept
  | .done (.failed failure) track => track.reach = remains.kept ∧ remains.carries failure
  | .done (.aborted (.fatalElement failure)) track =>
    remains.carries failure ∧ ∃ node, node.modifiers.fatal = true ∧ remains.stops node track.reader
  | .done (.aborted (.stopped refusal)) _ => setting.Halts refusal
  | .done (.aborted _) _ => True

theorem Step.Leaves.reach_of_next {setting : Setting σ} {remains : Remains} {state : State σ}
    (h : (Step.next state).Leaves setting remains) : state.track.reach = remains.kept := by
  obtain ⟨stack, phase, track⟩ := state
  cases phase with
  | matching => exact h
  | failing failure => exact h.1

theorem Step.Leaves.reach_of_done {setting : Setting σ} {remains : Remains} {ending : Ending}
    {track : Track σ}
    (h : (Step.done ending track).Leaves setting remains) (hends : ∀ abort, ending ≠ .aborted abort) :
    track.reach = remains.kept := by
  cases ending with
  | matched => exact h
  | failed failure => exact h.1
  | aborted abort => exact absurd rfl (hends abort)

theorem Step.Leaves.carries_of_next {setting : Setting σ} {remains : Remains} {state : State σ}
    {failure : Failure} (h : (Step.next state).Leaves setting remains)
    (hphase : state.phase = .failing failure) : remains.carries failure := by
  obtain ⟨stack, phase, track⟩ := state
  cases hphase
  exact h.2

/-- What the step from a state leaves. -/
def Setting.remains (setting : Setting σ) (state : State σ) : Remains where
  kept := Reach.offer? state.track.reach (setting.localFailure? state)
  carries failure :=
    (∃ reach, setting.localFailure? state = some reach ∧ reach.cause = failure) ∨
      failure.isOfAlternation = true ∨ state.phase = .failing failure
  stops node reader :=
    ∃ checkpoint, state.attempted? = some (node, checkpoint) ∧
      reader = state.track.reader.seek checkpoint

variable {setting : Setting σ} {remains : Remains} {track : Track σ}

/-- Only a listener that is told about it keeps a run from going back. -/
theorem Setting.halts_of_rewind {checkpoint : Checkpoint} {refusal : Refusal}
    (h : (track.rewind setting.listener checkpoint).1 = some refusal) :
    setting.Halts refusal := by
  unfold Track.rewind at h
  dsimp only at h
  split at h
  · split at h
    · next htold =>
      cases h
      exact ⟨_, _, congrArg Prod.fst htold⟩
    · cases h
  · cases h

namespace Step

/-- Going back changes nothing but the reader and what the listener remembers. -/
theorem leaves_rewindThen {checkpoint : Checkpoint} {goOn : Track σ → Step σ}
    (h : ∀ memory,
      (goOn { track with reader := track.reader.seek checkpoint, memory }).Leaves setting remains) :
    (setting.rewindThen checkpoint track goOn).Leaves setting remains := by
  have hback : ∃ memory, (track.rewind setting.listener checkpoint).2 =
      { track with reader := track.reader.seek checkpoint, memory } := by
    unfold Track.rewind
    dsimp only
    split
    · split
      · next htold => exact ⟨_, congrArg Prod.snd htold.symm⟩
      · next htold => exact ⟨_, congrArg Prod.snd htold.symm⟩
    · exact ⟨_, rfl⟩
  obtain ⟨memory, hback⟩ := hback
  unfold Setting.rewindThen
  rcases hrewind : track.rewind setting.listener checkpoint with ⟨_ | refusal, back⟩
  · rw [hrewind] at hback
    subst hback
    exact h memory
  · exact Setting.halts_of_rewind (congrArg Prod.fst hrewind)

/-- Telling an event changes only what the listener remembers; how a run goes on depends
    on whether the event is rejected. -/
theorem leaves_emitThen {event : Event} {rejected : Failure → Track σ → Step σ}
    {accepted : Track σ → Step σ}
    (hrejected : ∀ refusal memory, setting.rejection? event track = some refusal →
      (rejected (.rejected refusal) { track with memory }).Leaves setting remains)
    (haccepted : ∀ memory, setting.rejection? event track = none →
      (accepted { track with memory }).Leaves setting remains) :
    (setting.emitThen event track rejected accepted).Leaves setting remains := by
  unfold Setting.rejection? at hrejected haccepted
  unfold Setting.emitThen
  have htold : (track.emit setting.listener event).2 =
      { track with memory := (track.emit setting.listener event).2.memory } := rfl
  rcases hemit : track.emit setting.listener event with ⟨_ | refusal | refusal, told⟩
  all_goals rw [hemit] at hrejected haccepted htold
  · dsimp only at htold ⊢
    rw [htold]
    exact haccepted _ rfl
  · dsimp only at htold ⊢
    rw [htold]
    exact hrejected _ _ rfl
  · exact ⟨event, track, congrArg Prod.fst hemit⟩

end Step

namespace Stack

theorem leaves_afterMatch (hkept : track.reach = remains.kept) (stack : Stack) (node : Node) :
    (stack.afterMatch node track).Leaves setting remains := by
  unfold afterMatch
  split
  · split
    · exact hkept
    · trivial
  · exact hkept

theorem leaves_afterFailure {node : Node} {failure : Failure} (hkept : track.reach = remains.kept)
    (hcarries : remains.carries failure) (hstops : remains.stops node track.reader)
    (stack : Stack) : (stack.afterFailure node failure track).Leaves setting remains := by
  unfold afterFailure
  split
  · exact hkept
  · split
    · next hfatal => exact ⟨hcarries, node, hfatal, hstops⟩
    · exact ⟨hkept, hcarries⟩

theorem leaves_giveUp {stack : Stack} {failure : Failure} (hkept : track.reach = remains.kept)
    (hcarries : remains.carries failure)
    (hstops : ∀ parent node, stack.pop? = some (parent, node) →
      remains.stops node track.reader) : (stack.giveUp failure track).Leaves setting remains := by
  unfold giveUp
  split
  · trivial
  · next parent node hpop => exact leaves_afterFailure hkept hcarries (hstops _ _ hpop) parent

end Stack

namespace Setting

-- ----------------------------------------------------------------------------
-- Attempts
-- ----------------------------------------------------------------------------

theorem leaves_attemptTerminal {stack : Stack} {node : Node} {pattern : Terminal}
    (hattempt : stack.top.attempt = track.reader.checkpoint)
    (hkept : remains.kept = Reach.offer? track.reach
      (setting.terminalFailure? node.modifiers.adjacent pattern track))
    (hcarries : ∀ reach,
      setting.terminalFailure? node.modifiers.adjacent pattern track = some reach →
        remains.carries reach.cause)
    (hstops : remains.stops node track.reader) :
    (setting.attemptTerminal stack node pattern track).Leaves setting remains := by
  unfold terminalFailure? at hkept hcarries
  unfold attemptTerminal
  rcases hmatch : pattern.matchAt node.modifiers.adjacent track.reader
    with miss | ⟨matched, reader⟩
  all_goals rw [hmatch] at hkept hcarries
  · refine Stack.leaves_afterFailure ?_ ?_ ?_ stack
    · exact hkept.symm
    · exact hcarries _ rfl
    · exact hstops
  · dsimp only at hkept hcarries ⊢
    refine Step.leaves_emitThen (fun refusal memory hrejection => ?_)
      (fun memory hrejection => ?_)
    · rw [hrejection] at hkept hcarries
      refine Step.leaves_rewindThen fun memory => ?_
      have hback : reader.seek stack.top.attempt = track.reader := by
        rw [hattempt, Reader.seek, Terminal.stream_of_matchAt hmatch]
        rfl
      refine Stack.leaves_afterFailure hkept.symm (hcarries _ rfl) ?_ _
      show remains.stops node (reader.seek stack.top.attempt)
      rw [hback]
      exact hstops
    · rw [hrejection] at hkept
      refine Stack.leaves_afterMatch ?_ stack node
      exact hkept.symm

theorem leaves_attemptRule {stack : Stack} {name : String} {failure? : Option (Reach Failure)}
    (hfailure : failure? =
      if (setting.rules.nodes? name).isSome && decide (0 < stack.room) then
        setting.enterFailure? name track
      else none)
    (hkept : remains.kept = Reach.offer? track.reach failure?)
    (hcarries : ∀ reach, failure? = some reach → remains.carries reach.cause) :
    (setting.attemptRule stack name track).Leaves setting remains := by
  unfold attemptRule
  rcases hnodes : setting.rules.nodes? name with _ | nodes
  · trivial
  obtain ⟨top, below, _ | room⟩ := stack
  · trivial
  · rw [hnodes, Option.isSome_some, Bool.true_and, decide_eq_true (Nat.succ_pos room),
      if_pos rfl, enterFailure?] at hfailure
    subst hfailure
    refine Step.leaves_emitThen (fun refusal memory hrejection => ?_)
      (fun memory hrejection => ?_)
    · rw [hrejection] at hkept hcarries
      exact ⟨hkept.symm, hcarries _ rfl⟩
    · rw [hrejection] at hkept
      exact hkept.symm

theorem leaves_attemptAlternation {stack : Stack} {node : Node} {branches : List (List Node)}
    (hkept : remains.kept = track.reach) (hcarries : remains.carries .emptyAlternation)
    (hstops : remains.stops node track.reader) :
    (setting.attemptAlternation stack node branches track).Leaves setting remains := by
  unfold attemptAlternation
  split
  · exact Stack.leaves_afterFailure hkept.symm hcarries hstops _
  · split
    · trivial
    · exact hkept.symm

-- ----------------------------------------------------------------------------
-- Ends of frames
-- ----------------------------------------------------------------------------

theorem leaves_finishRule {stack : Stack} {name : String}
    (hkept : remains.kept = Reach.offer? track.reach (setting.leaveFailure? name track))
    (hcarries : ∀ reach, setting.leaveFailure? name track = some reach →
      remains.carries reach.cause) :
    (setting.finishRule stack name track).Leaves setting remains := by
  unfold leaveFailure? at hkept hcarries
  unfold finishRule
  refine Step.leaves_emitThen (fun refusal memory hrejection => ?_) (fun memory hrejection => ?_)
  · rw [hrejection] at hkept hcarries
    exact ⟨hkept.symm, hcarries _ rfl⟩
  · rw [hrejection] at hkept
    unfold closeRule
    split
    · exact hkept.symm
    · split
      · trivial
      · refine Stack.leaves_afterMatch ?_ _ _
        exact hkept.symm

theorem leaves_finishBranch {stack : Stack} {index : Nat}
    (hkept : remains.kept = Reach.offer? track.reach (branchFailure? stack index track))
    (hcarries : ∀ reach, branchFailure? stack index track = some reach →
      remains.carries reach.cause)
    (hstops : ∀ parent node, stack.pop? = some (parent, node) →
      remains.stops node (track.reader.seek stack.top.entry)) :
    (setting.finishBranch stack index track).Leaves setting remains := by
  unfold branchFailure? at hkept hcarries
  unfold finishBranch
  rcases hpop : stack.pop? with _ | ⟨parent, node⟩
  · trivial
  · rw [hpop] at hkept hcarries
    dsimp only at hkept hcarries ⊢
    by_cases honce : node.isOnceEach = true
    · rw [if_pos honce]
      rw [honce, Bool.true_and] at hkept hcarries
      by_cases htaken : parent.top.taken.contains index = true
      · rw [if_pos htaken] at hkept hcarries ⊢
        exact Step.leaves_rewindThen fun memory =>
          Stack.leaves_afterFailure hkept.symm (hcarries _ rfl) (hstops parent node hpop) _
      · rw [if_neg htaken] at hkept ⊢
        exact Stack.leaves_afterMatch hkept.symm _ _
    · rw [if_neg honce]
      rw [Bool.eq_false_iff.2 honce, Bool.false_and, if_neg Bool.false_ne_true] at hkept
      exact Stack.leaves_afterMatch hkept.symm _ _

theorem leaves_fail {stack : Stack} {failure : Failure} (hkept : remains.kept = track.reach)
    (hcarries : remains.carries failure)
    (halternation : ∀ failures, remains.carries (.noAlternative failures))
    (hstops : ∀ parent node, stack.pop? = some (parent, node) →
      remains.stops node (track.reader.seek stack.top.entry)) :
    (setting.fail stack failure track).Leaves setting remains := by
  unfold fail
  dsimp only
  split
  · exact Step.leaves_rewindThen fun memory => ⟨hkept.symm, hcarries⟩
  · exact Step.leaves_rewindThen fun memory => Stack.leaves_giveUp hkept.symm hcarries hstops
  · exact Step.leaves_rewindThen fun memory =>
      Stack.leaves_giveUp hkept.symm (halternation _) hstops
  · exact Step.leaves_rewindThen fun memory => hkept.symm

-- ----------------------------------------------------------------------------
-- Steps
-- ----------------------------------------------------------------------------

theorem stops_of_pop? {state : State σ} (h : state.phase ≠ .matching ∨ state.stack.top.rest = [])
    {parent : Stack} {node : Node} (hpop : state.stack.pop? = some (parent, node)) :
    (setting.remains state).stops node (state.track.reader.seek state.stack.top.entry) := by
  refine ⟨state.stack.top.entry, ?_, rfl⟩
  unfold State.attempted?
  split
  · next hphase hrest =>
    rcases h with h | h
    · exact absurd hphase h
    · rw [h] at hrest
      cases hrest
  · rw [hpop]
    rfl

theorem stops_of_rest {state : State σ} (hphase : state.phase = .matching) {node : Node}
    {rest : List Node} (hrest : state.stack.top.rest = node :: rest) :
    (setting.remains state).stops node state.track.reader := by
  refine ⟨state.track.reader.checkpoint, ?_, rfl⟩
  unfold State.attempted?
  rw [hphase, hrest]

/-- Every step leaves what it may. -/
theorem leaves_step (setting : Setting σ) (state : State σ) :
    (setting.step state).Leaves setting (setting.remains state) := by
  have hlocal : ∀ reach, setting.localFailure? state = some reach →
      (setting.remains state).carries reach.cause := fun reach h => .inl ⟨reach, h, rfl⟩
  have halternation : ∀ failure : Failure, failure.isOfAlternation = true →
      (setting.remains state).carries failure := fun failure h => .inr (.inl h)
  have hkept : (setting.remains state).kept =
      Reach.offer? state.track.reach (setting.localFailure? state) := rfl
  obtain ⟨stack, phase, track⟩ := state
  unfold step
  cases phase with
  | failing failure =>
      exact leaves_fail rfl (.inr (.inr rfl)) (fun failures => halternation _ rfl)
        fun parent node hpop => stops_of_pop? (.inl (by intro h; cases h)) hpop
  | matching =>
      unfold localFailure? at hlocal hkept
      dsimp only at hlocal hkept ⊢
      rcases hrest : stack.top.rest with _ | ⟨node, rest⟩
      · rw [hrest] at hlocal hkept
        dsimp only at hlocal hkept ⊢
        unfold finish
        rcases horigin : stack.top.origin with _ | name | ⟨failed, later⟩
        all_goals
          rw [horigin] at hlocal hkept
          dsimp only at hlocal hkept ⊢
        · exact leaves_finishRule hkept hlocal
        · exact leaves_finishRule hkept hlocal
        · exact leaves_finishBranch hkept hlocal fun parent node hpop =>
            stops_of_pop? (.inr hrest) hpop
      · have hstops : (setting.remains ⟨stack, .matching, track⟩).stops node track.reader :=
          stops_of_rest rfl hrest
        rw [hrest] at hlocal hkept
        cases node with
        | terminal modifiers span pattern => exact leaves_attemptTerminal rfl hkept hlocal hstops
        | ref modifiers span name => exact leaves_attemptRule rfl hkept hlocal
        | alternation modifiers span branches onceEach =>
            exact leaves_attemptAlternation hkept (halternation _ rfl) hstops

/-- Before the first state nothing is offered and nothing stops the run, but the listener
    may reject that the rule `ROOT` is entered. -/
theorem leaves_start (setting : Setting σ) (reader : Reader) (memory : σ) :
    (setting.start reader memory).Leaves setting
      ⟨none, fun failure => ∃ refusal,
        setting.rejection? (.enter rootName)
          (Track.openRule ⟨reader, [], none, memory⟩ rootName) = some refusal ∧
        failure = .rejected refusal, fun _ _ => False⟩ := by
  unfold start
  dsimp only
  split
  · trivial
  · trivial
  · exact Step.leaves_emitThen (fun refusal _ h => ⟨rfl, refusal, h, rfl⟩) (fun _ _ => rfl)

end Setting

end TokenGrammar
