/-
  TokenGrammar.Proofs.Match.Termination

  Every run ends.  The machine descends with every step, so that a bound on the number
  of its steps exists for any rules and any listener (`Setting.exists_runWithin`); and
  while the top frame fails, every step but the last closes a frame, so that the frames
  bound the steps until the run goes on or is over (`Setting.isFailing_unwind`).

  What makes a repeated element descend is that fewer tokens must be left after each
  match.  In the states that runs come to, this asks no more than that the reader has
  moved: a run that stops for an empty repetition stands where the element was attempted.

  Main statement: `RuleTable.matchFrom_ends`.
-/

import TokenGrammar.Proofs.Match.Coherence

namespace TokenGrammar

variable {σ : Type}

namespace Setting

/-- Some number of steps is enough for a run. -/
theorem exists_runWithin (setting : Setting σ) (first : Step σ) :
    ∃ steps, setting.runWithin steps first = some (setting.complete first) := by
  cases first with
  | done ending track => exact ⟨0, rfl⟩
  | next state =>
      show ∃ steps, setting.runWithin steps (.next state) = some (setting.run state)
      fun_induction setting.run state with
      | case1 state ending track hstep =>
          refine ⟨1, ?_⟩
          rw [runWithin, hstep]
          rfl
      | case2 state after hstep ih =>
          obtain ⟨steps, hsteps⟩ := ih
          refine ⟨steps + 1, ?_⟩
          rw [runWithin, hstep]
          exact hsteps

-- ============================================================================
-- Failing frames
-- ============================================================================

/-- Go on for at most so many steps, while the top frame fails. -/
def unwind (setting : Setting σ) : Nat → Step σ → Step σ
  | steps + 1, .next ⟨stack, .failing failure, track⟩ =>
    setting.unwind steps (setting.fail stack failure track)
  | _, step => step

end Setting

namespace Step

/-- Whether a run goes on with a top frame that fails. -/
def isFailing : Step σ → Bool
  | .next ⟨_, .failing _, _⟩ => true
  | _ => false

/-- A step at which the top frame does not fail, or fails on a stack of so many
    frames. -/
def FailsOn (depth : Nat) : Step σ → Prop
  | .next ⟨stack, .failing _, _⟩ => stack.frames.length = depth
  | _ => True

theorem FailsOn.exists_failing {step : Step σ} {depth : Nat} (h : step.FailsOn depth)
    (hfailing : step.isFailing = true) :
    ∃ stack failure track, step = .failing stack failure track ∧ stack.frames.length = depth := by
  unfold isFailing at hfailing
  split at hfailing
  · next stack failure track => exact ⟨stack, failure, track, rfl, h⟩
  · cases hfailing

theorem failsOn_rewindThen {setting : Setting σ} {checkpoint : Checkpoint} {track : Track σ}
    {goOn : Track σ → Step σ} {depth : Nat} (h : ∀ back, (goOn back).FailsOn depth) :
    (setting.rewindThen checkpoint track goOn).FailsOn depth := by
  unfold Setting.rewindThen
  split
  · trivial
  · exact h _

end Step

theorem Stack.failsOn_afterFailure (stack : Stack) (node : Node) (failure : Failure)
    (track : Track σ) : (stack.afterFailure node failure track).FailsOn stack.frames.length := by
  unfold afterFailure
  split
  · trivial
  · split
    · trivial
    · rfl

theorem Stack.failsOn_giveUp (stack : Stack) (failure : Failure) (track : Track σ) :
    (stack.giveUp failure track).FailsOn stack.below.length := by
  unfold giveUp
  split
  · trivial
  · next parent node hpop =>
    have hframes : parent.frames = stack.below := by
      unfold pop? at hpop
      split at hpop
      · cases hpop
      · next hbelow =>
        split at hpop
        · cases hpop
        · cases hpop
          exact hbelow.symm
    rw [← hframes]
    exact parent.failsOn_afterFailure node failure track

namespace Setting

theorem failsOn_fail (setting : Setting σ) (stack : Stack) (failure : Failure)
    (track : Track σ) : (setting.fail stack failure track).FailsOn stack.below.length := by
  unfold fail
  dsimp only
  split
  · exact Step.failsOn_rewindThen fun back => trivial
  · exact Step.failsOn_rewindThen fun back => stack.failsOn_giveUp _ _
  · exact Step.failsOn_rewindThen fun back => stack.failsOn_giveUp _ _
  · exact Step.failsOn_rewindThen fun back => trivial

/-- A step that does not leave the top frame failing is where failing ends. -/
theorem unwind_eq_self {setting : Setting σ} {step : Step σ} (h : step.isFailing = false)
    (steps : Nat) : setting.unwind steps step = step := by
  unfold unwind
  split
  · cases h
  · rfl

/-- Every step but the last of a failure closes a frame, so that the frames bound these
    steps. -/
theorem isFailing_unwind (setting : Setting σ) (stack : Stack) (failure : Failure)
    (track : Track σ) :
    (setting.unwind stack.frames.length (.failing stack failure track)).isFailing = false := by
  generalize hdepth : stack.below.length = depth
  have hframes : stack.frames.length = depth + 1 := congrArg (· + 1) hdepth
  rw [hframes]
  induction depth generalizing stack failure track with
  | zero =>
      have hfails := setting.failsOn_fail stack failure track
      rw [hdepth] at hfails
      show (setting.unwind 0 (setting.fail stack failure track)).isFailing = false
      cases hafter : (setting.fail stack failure track).isFailing with
      | false => rw [unwind_eq_self hafter, hafter]
      | true =>
          obtain ⟨above, _, _, -, hempty⟩ := hfails.exists_failing hafter
          cases hempty
  | succ depth ih =>
      have hfails := setting.failsOn_fail stack failure track
      rw [hdepth] at hfails
      show (setting.unwind (depth + 1) (setting.fail stack failure track)).isFailing = false
      cases hafter : (setting.fail stack failure track).isFailing with
      | false => rw [unwind_eq_self hafter, hafter]
      | true =>
          obtain ⟨parent, failure, back, hstep, hparent⟩ := hfails.exists_failing hafter
          rw [hstep]
          exact ih parent failure back (Nat.succ.inj hparent) hparent

end Setting

/-- Every run takes finitely many steps to its outcome, and so does every failure that
    goes down the stack, whatever the rules, the input, the options and the listener
    are.  A repeated element that ends a run did so with the reader where it was when
    the element was attempted. -/
theorem RuleTable.matchFrom_ends (rules : RuleTable) (options : Options)
    (listener : Listener σ) (reader : Reader) (memory : σ) :
    let setting : Setting σ := ⟨rules, options.recursionLimit, listener⟩
    let first := setting.start (reader.withSkipLines (!rules.usesLineEnds)) memory
    (∃ steps ending track, setting.runWithin steps first = some (ending, track) ∧
      rules.matchFrom options listener reader memory =
        ⟨ending.outcome options.requireEnd track, track.reader, track.memory⟩) ∧
    (∀ stack failure track,
      (setting.unwind stack.frames.length (.failing stack failure track)).isFailing = false) ∧
    ∀ state node track, setting.Reaches first state →
      setting.step state = .done (.aborted (.emptyRepetition node)) track →
      track.reader.position = state.begun := by
  intro setting first
  refine ⟨?_, setting.isFailing_unwind, fun state node track hreaches hstep => ?_⟩
  · obtain ⟨steps, hsteps⟩ := setting.exists_runWithin first
    exact ⟨steps, _, _, hsteps, rfl⟩
  · have hfirst : first.Sound setting 0 := setting.sound_start _ _
    have hsound := Setting.sound_step (hreaches.coherent hfirst)
    rw [hstep] at hsound
    exact hsound

/-- The rule `ROOT := [ ID? ]*`. -/
def RuleTable.wordOrNothing : RuleTable where
  rules :=
    [⟨rootName,
      [.alternation { Modifiers.plain with repeated := true } .zero
        [[.terminal { Modifiers.plain with optional := true } .zero
          (.ofCategory .identifier)]] false], .zero⟩]

/-- A run that stops at the end of its input, where an alternation has matched without
    any. -/
theorem RuleTable.matchFrom_ends_at_empty_repetition :
    let setting : Setting Unit := ⟨wordOrNothing, 2, .acceptAll⟩
    let first := setting.start ⟨.word, 2, true⟩ ()
    ∃ state node track, setting.Reaches first state ∧
      setting.step state = .done (.aborted (.emptyRepetition node)) track ∧
      track.reader.position = 2 ∧ track.reader.position = state.begun := by
  intro setting first
  have hstops : ∃ state node track, setting.Reaches first state ∧
      setting.step state = .done (.aborted (.emptyRepetition node)) track ∧
      track.reader.position = 2 :=
    ⟨_, _, _, .step (.step (.begin rfl) rfl) rfl, rfl, rfl⟩
  obtain ⟨state, node, track, hreaches, hstep, hposition⟩ := hstops
  have hends := wordOrNothing.matchFrom_ends ⟨2, true⟩ .acceptAll ⟨.word, 2, true⟩ ()
  exact ⟨state, node, track, hreaches, hstep, hposition,
    hends.2.2 state node track hreaches hstep⟩

end TokenGrammar
