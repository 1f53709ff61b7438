/-
  TokenGrammar.Proofs.Match.Limits

  What the options of a match decide.  The limit on the stack is looked at only where a
  frame is opened, and all it can do there is to stop the run.  So a run and one that has
  room for more frames go hand in hand, step by step, up to the first time that the limit
  is exceeded (`Setting.step_widened`).  That the input has to end where the match does
  matters only after the last step.

  Main statement: `RuleTable.options_only_cut_off`.
-/

import TokenGrammar.Proofs.Match.Simulation
import TokenGrammar.Proofs.Match.Trail
import TokenGrammar.Proofs.Match.Nesting

namespace TokenGrammar

variable {σ : Type}

-- ============================================================================
-- Stacks with more room
-- ============================================================================

/-- The same stack with room for more frames. -/
def Stack.widened (extra : Nat) (stack : Stack) : Stack :=
  { stack with room := stack.room + extra }

/-- The same state with room for more frames. -/
def State.widened (extra : Nat) (state : State σ) : State σ :=
  { state with stack := state.stack.widened extra }

/-- The same step with room for more frames, if the run goes on. -/
def Step.widened (extra : Nat) : Step σ → Step σ
  | .next state => .next (state.widened extra)
  | .done ending track => .done ending track

/-- The same setting with a higher limit. -/
def Setting.widened (extra : Nat) (setting : Setting σ) : Setting σ :=
  { setting with limit := setting.limit + extra }

namespace Stack

variable (extra : Nat) (stack : Stack)

@[simp] theorem top_widened : (stack.widened extra).top = stack.top := rfl

@[simp] theorem withTop_widened (top : Frame) :
    (stack.widened extra).withTop top = (stack.withTop top).widened extra := rfl

theorem pop?_widened :
    (stack.widened extra).pop? = stack.pop?.map fun popped => (popped.1.widened extra, popped.2) := by
  obtain ⟨top, below, room⟩ := stack
  rcases below with _ | ⟨⟨origin, rest, passes, taken, attempt, entry⟩, below⟩
  · rfl
  · rcases rest with _ | ⟨node, rest⟩
    · rfl
    · show some (Stack.mk _ below (room + extra + 1), node) = some (Stack.mk _ below _, node)
      rw [Nat.add_right_comm]

/-- Where there is room for a frame there still is with room for more. -/
theorem push?_widened {stack pushed : Stack} {frame : Frame}
    (h : stack.push? frame = some pushed) :
    (stack.widened extra).push? frame = some (pushed.widened extra) := by
  obtain ⟨top, below, room⟩ := stack
  cases room with
  | zero => cases h
  | succ room =>
      obtain rfl : Stack.mk frame (top :: below) room = pushed := Option.some.inj h
      show Stack.push? ⟨top, below, room + 1 + extra⟩ frame = _
      rw [Nat.add_right_comm]
      rfl

end Stack

-- ============================================================================
-- Steps that do not open a frame
-- ============================================================================

namespace Stack

variable (extra : Nat) (stack : Stack) (node : Node) (failure : Failure) (track : Track σ)

theorem afterMatch_widened :
    (stack.widened extra).afterMatch node track = (stack.afterMatch node track).widened extra := by
  unfold afterMatch
  rw [apply_ite (Step.widened extra), apply_ite (Step.widened extra)]
  rfl

theorem afterFailure_widened :
    (stack.widened extra).afterFailure node failure track =
      (stack.afterFailure node failure track).widened extra := by
  unfold afterFailure
  rw [apply_ite (Step.widened extra), apply_ite (Step.widened extra)]
  rfl

theorem giveUp_widened :
    (stack.widened extra).giveUp failure track = (stack.giveUp failure track).widened extra := by
  unfold giveUp
  rw [pop?_widened]
  rcases stack.pop? with _ | ⟨parent, node⟩
  · rfl
  · exact parent.afterFailure_widened extra node failure track

end Stack

namespace Setting

variable (extra : Nat) (setting : Setting σ) (stack : Stack) (track : Track σ)

theorem rewindThen_widened (checkpoint : Checkpoint) {goOn goOn' : Track σ → Step σ}
    (h : ∀ back, goOn' back = (goOn back).widened extra) :
    (setting.widened extra).rewindThen checkpoint track goOn' =
      (setting.rewindThen checkpoint track goOn).widened extra := by
  show setting.rewindThen checkpoint track goOn' = _
  unfold rewindThen
  rcases track.rewind setting.listener checkpoint with ⟨_ | refusal, back⟩
  · exact h back
  · rfl

theorem emitThen_widened (event : Event) {rejected rejected' : Failure → Track σ → Step σ}
    {accepted accepted' : Track σ → Step σ}
    (hrejected : ∀ failure told, rejected' failure told = (rejected failure told).widened extra)
    (haccepted : ∀ told, accepted' told = (accepted told).widened extra) :
    (setting.widened extra).emitThen event track rejected' accepted' =
      (setting.emitThen event track rejected accepted).widened extra := by
  show setting.emitThen event track rejected' accepted' = _
  unfold emitThen
  rcases track.emit setting.listener event with ⟨_ | refusal | refusal, told⟩
  · exact haccepted told
  · exact hrejected _ told
  · rfl

theorem attemptTerminal_widened (node : Node) (pattern : Terminal) :
    (setting.widened extra).attemptTerminal (stack.widened extra) node pattern track =
      (setting.attemptTerminal stack node pattern track).widened extra := by
  unfold attemptTerminal
  rcases pattern.matchAt node.modifiers.adjacent track.reader with miss | ⟨matched, reader⟩
  · exact stack.afterFailure_widened extra node _ _
  · refine setting.emitThen_widened extra _ _ (fun failure told => ?_) fun told => ?_
    · refine setting.rewindThen_widened extra _ _ fun back => ?_
      exact stack.afterFailure_widened extra node failure back
    · exact stack.afterMatch_widened extra node told

theorem closeRule_widened :
    closeRule (stack.widened extra) track = (closeRule stack track).widened extra := by
  unfold closeRule
  rw [Stack.top_widened, Stack.pop?_widened]
  split
  · rfl
  · rcases stack.pop? with _ | ⟨parent, node⟩
    · rfl
    · exact parent.afterMatch_widened extra node _

theorem finishRule_widened (name : String) :
    (setting.widened extra).finishRule (stack.widened extra) name track =
      (setting.finishRule stack name track).widened extra :=
  setting.emitThen_widened extra _ _ (fun _ _ => rfl) fun told =>
    closeRule_widened extra stack told

theorem finishBranch_widened (index : Nat) :
    (setting.widened extra).finishBranch (stack.widened extra) index track =
      (setting.finishBranch stack index track).widened extra := by
  unfold finishBranch
  rw [Stack.pop?_widened]
  rcases stack.pop? with _ | ⟨parent, node⟩
  · rfl
  · dsimp only [Option.map_some]
    by_cases honceEach : node.isOnceEach = true
    · rw [if_pos honceEach, if_pos honceEach]
      by_cases htaken : parent.top.taken.contains index = true
      · rw [if_pos (show (parent.widened extra).top.taken.contains index = true from htaken),
          if_pos htaken]
        refine setting.rewindThen_widened extra _ _ fun back => ?_
        exact parent.afterFailure_widened extra node _ _
      · rw [if_neg (show ¬(parent.widened extra).top.taken.contains index = true from htaken),
          if_neg htaken]
        exact (parent.withTop (parent.top.take index)).afterMatch_widened extra node track
    · rw [if_neg honceEach, if_neg honceEach]
      exact parent.afterMatch_widened extra node track

theorem finish_widened :
    (setting.widened extra).finish (stack.widened extra) track =
      (setting.finish stack track).widened extra := by
  unfold finish
  rw [Stack.top_widened]
  split
  · exact setting.finishRule_widened extra stack track _
  · exact setting.finishRule_widened extra stack track _
  · exact setting.finishBranch_widened extra stack track _

theorem fail_widened (failure : Failure) :
    (setting.widened extra).fail (stack.widened extra) failure track =
      (setting.fail stack failure track).widened extra := by
  unfold fail
  simp only [Stack.top_widened, Stack.withTop_widened]
  split
  · exact setting.rewindThen_widened extra _ _ fun _ => rfl
  · exact setting.rewindThen_widened extra _ _ fun back => stack.giveUp_widened extra failure _
  · exact setting.rewindThen_widened extra _ _ fun back => stack.giveUp_widened extra _ back
  · exact setting.rewindThen_widened extra _ _ fun _ => rfl

-- ============================================================================
-- Steps that open a frame
-- ============================================================================

/-- Whether a step stops the run since the limit is exceeded. -/
def ExceedsLimit (setting : Setting σ) (step : Step σ) : Prop :=
  ∃ track, step = .abort (.recursionLimit setting.limit) track

theorem attemptRule_widened (name : String) :
    setting.ExceedsLimit (setting.attemptRule stack name track) ∨
      (setting.widened extra).attemptRule (stack.widened extra) name track =
        (setting.attemptRule stack name track).widened extra := by
  unfold attemptRule
  rw [show (setting.widened extra).rules = setting.rules from rfl, Stack.top_widened]
  rcases setting.rules.nodes? name with _ | nodes
  · exact .inr rfl
  · dsimp only
    rcases hpush : stack.push? (.start (.rule name) nodes stack.top.attempt) with _ | pushed
    · exact .inl ⟨track, rfl⟩
    · rw [Stack.push?_widened extra hpush]
      exact .inr (setting.emitThen_widened extra _ _ (fun _ _ => rfl) fun _ => rfl)

theorem attemptAlternation_widened (node : Node) (branches : List (List Node)) :
    setting.ExceedsLimit (setting.attemptAlternation stack node branches track) ∨
      (setting.widened extra).attemptAlternation (stack.widened extra) node branches track =
        (setting.attemptAlternation stack node branches track).widened extra := by
  unfold attemptAlternation
  rcases branches with _ | ⟨first, later⟩
  · exact .inr (stack.afterFailure_widened extra node _ track)
  · dsimp only
    rw [Stack.top_widened]
    rcases hpush : stack.push? (.start (.branch [] later) first stack.top.attempt) with _ | pushed
    · exact .inl ⟨track, rfl⟩
    · rw [Stack.push?_widened extra hpush]
      exact .inr rfl

theorem attempt_widened (node : Node) :
    setting.ExceedsLimit (setting.attempt stack node track) ∨
      (setting.widened extra).attempt (stack.widened extra) node track =
        (setting.attempt stack node track).widened extra := by
  unfold attempt
  rw [Stack.top_widened, Stack.withTop_widened]
  cases node with
  | terminal => exact .inr (setting.attemptTerminal_widened extra _ track _ _)
  | ref => exact setting.attemptRule_widened extra _ track _
  | alternation => exact setting.attemptAlternation_widened extra _ track _ _

/-- A step does the same with room for more frames, unless it exceeds the limit. -/
theorem step_widened (state : State σ) :
    setting.ExceedsLimit (setting.step state) ∨
      (setting.widened extra).step (state.widened extra) =
        (setting.step state).widened extra := by
  obtain ⟨stack, phase, track⟩ := state
  unfold step
  cases phase with
  | failing failure => exact .inr (setting.fail_widened extra stack track failure)
  | matching =>
      simp only [State.widened, Stack.top_widened]
      split
      · exact .inr (setting.finish_widened extra stack track)
      · exact setting.attempt_widened extra stack track _

theorem start_widened (reader : Reader) (memory : σ) :
    setting.ExceedsLimit (setting.start reader memory) ∨
      (setting.widened extra).start reader memory =
        (setting.start reader memory).widened extra := by
  obtain ⟨rules, limit, listener⟩ := setting
  unfold start
  dsimp only [Setting.widened]
  rcases rules.nodes? rootName with _ | nodes
  · exact .inr rfl
  · cases limit with
    | zero => exact .inl ⟨_, rfl⟩
    | succ room =>
        rw [Nat.add_right_comm]
        refine .inr (emitThen_widened extra ⟨rules, room + 1, listener⟩ _ _ ?_ ?_)
        · exact fun _ _ => rfl
        · exact fun _ => rfl

-- ============================================================================
-- Runs
-- ============================================================================

/-- A run ends in the same way with room for more frames, unless it exceeds the limit. -/
theorem run_widened (state : State σ) :
    (∃ track, setting.run state = (.aborted (.recursionLimit setting.limit), track)) ∨
      (setting.widened extra).run (state.widened extra) = setting.run state := by
  fun_induction setting.run state with
  | case1 state ending track hstep =>
      rcases setting.step_widened extra state with ⟨after, hexceeds⟩ | hwidened
      · rw [hstep] at hexceeds
        cases hexceeds
        exact .inl ⟨_, rfl⟩
      · rw [(setting.widened extra).run_eq_complete_step, hwidened, hstep]
        exact .inr rfl
  | case2 state after hstep ih =>
      rcases setting.step_widened extra state with ⟨_, hexceeds⟩ | hwidened
      · rw [hstep] at hexceeds
        cases hexceeds
      · rw [(setting.widened extra).run_eq_complete_step, hwidened, hstep]
        exact ih

theorem complete_start_widened (reader : Reader) (memory : σ)
    (h : ∀ track, setting.complete (setting.start reader memory) ≠
      (.aborted (.recursionLimit setting.limit), track)) :
    (setting.widened extra).complete ((setting.widened extra).start reader memory) =
      setting.complete (setting.start reader memory) := by
  have hstart := setting.start_widened extra reader memory
  generalize setting.start reader memory = first at h hstart ⊢
  rcases hstart with ⟨track, rfl⟩ | hwidened
  · exact absurd rfl (h track)
  · rw [hwidened]
    rcases first with state | ⟨ending, track⟩
    · rcases setting.run_widened extra state with ⟨track, hrun⟩ | hrun
      · exact absurd hrun (h track)
      · exact hrun
    · rfl

end Setting

namespace RuleTable

/-- A match that does not exceed the limit ends in the same way with a higher one. -/
theorem lastStep_of_limit_le (rules : RuleTable) (options : Options) (listener : Listener σ)
    (reader : Reader) (memory : σ) {limit : Nat} (hle : options.recursionLimit ≤ limit)
    (h : (rules.lastStep options listener reader memory).1 ≠
      .aborted (.recursionLimit options.recursionLimit)) :
    rules.lastStep { options with recursionLimit := limit } listener reader memory =
      rules.lastStep options listener reader memory := by
  obtain ⟨extra, rfl⟩ := Nat.exists_eq_add_of_le hle
  refine (rules.setting options listener).complete_start_widened extra _ memory ?_
  exact fun track hends => h (congrArg Prod.fst hends)

/-- The outcome of a match that need not reach the end of the input, and of one that has
    to. -/
theorem outcome_of_requireEnd (ending : Ending) (track : Track σ) :
    (ending.outcome false track = .success → track.reader.atEnd = false →
      ∃ diagnostic, ending.outcome true track = .failure diagnostic) ∧
    (ending.outcome false track ≠ .success ∨ track.reader.atEnd = true →
      ending.outcome true track = ending.outcome false track) := by
  cases ending with
  | aborted abort => exact ⟨fun h => (nomatch h), fun _ => rfl⟩
  | failed failure => exact ⟨fun h => (nomatch h), fun _ => rfl⟩
  | matched =>
      unfold Ending.outcome
      refine ⟨fun _ hatEnd => ?_, fun h => ?_⟩
      · rw [hatEnd]
        exact ⟨_, rfl⟩
      · rw [h.resolve_left fun h => h rfl]
        rfl

/-- Whatever the rules, the listener, the input and the start are, the options only cut
    matches off.  A match that is not stopped because it exceeds its limit is the same with
    every higher limit.  And a match that has to reach the end of the input tells the same
    events and leaves the reader and the listener's memory the same as one that need not,
    and its outcome is the same, too, unless the other one succeeds in front of input that
    goes on: then it fails. -/
theorem options_only_cut_off (rules : RuleTable) (options : Options) (listener : Listener σ)
    (reader : Reader) (memory : σ) :
    let matchWith := fun options =>
      rules.matchFrom options listener.recording reader (memory, [])
    ((rules.lastStep options listener.recording reader (memory, [])).1 ≠
        .aborted (.recursionLimit options.recursionLimit) →
      ∀ limit, options.recursionLimit ≤ limit →
        let run := matchWith options
        let further := matchWith { options with recursionLimit := limit }
        further.events = run.events ∧ further.reader = run.reader ∧
          further.outcome = run.outcome ∧ further.memory = run.memory) ∧
    let partly := matchWith { options with requireEnd := false }
    let whole := matchWith { options with requireEnd := true }
    whole.events = partly.events ∧ whole.reader = partly.reader ∧
      whole.memory = partly.memory ∧
      (partly.outcome = .success → partly.reader.atEnd = false →
        ∃ diagnostic, whole.outcome = .failure diagnostic) ∧
      (partly.outcome ≠ .success ∨ partly.reader.atEnd = true →
        whole.outcome = partly.outcome) := by
  intro matchWith
  constructor
  · intro hlimit limit hle
    have hlast := rules.lastStep_of_limit_le options listener.recording reader (memory, []) hle
      hlimit
    have heq : matchWith { options with recursionLimit := limit } = matchWith options :=
      (matchFrom_of_lastStep hlast).trans (matchFrom_of_lastStep rfl).symm
    intro run further
    refine ⟨?_, ?_, ?_, ?_⟩
    · rw [show further = run from heq]
    · rw [show further = run from heq]
    · rw [show further = run from heq]
    · rw [show further = run from heq]
  · -- Both matches are the same run, of which only the outcome is told differently.
    exact ⟨rfl, rfl, rfl, outcome_of_requireEnd _ _⟩

/-- Two items need room for the frames of `ROOT` and of one `item`, and they match with a
    higher limit as they do with that one. -/
theorem two_items_match_within_two_frames :
    (items.lastStep ⟨2, true⟩ Listener.acceptAll.recording TokenStream.twoWords.reader
      ((), [])).1 ≠ .aborted (.recursionLimit 2) ∧
    2 ≤ 7 ∧
    (items.matchFrom ⟨7, true⟩ Listener.acceptAll.recording TokenStream.twoWords.reader
      ((), [])).outcome = .success := by
  have hruns : ∃ track,
      (items.setting ⟨2, true⟩ Listener.acceptAll.recording).runWithin 20
          (items.firstStep ⟨2, true⟩ Listener.acceptAll.recording TokenStream.twoWords.reader
            ((), [])) =
        some (.matched, track) := ⟨_, rfl⟩
  obtain ⟨track, hruns⟩ := hruns
  have hlast : items.lastStep ⟨2, true⟩ Listener.acceptAll.recording
      TokenStream.twoWords.reader ((), []) = (.matched, track) :=
    Setting.complete_of_runWithin hruns
  have hlimit : (items.lastStep ⟨2, true⟩ Listener.acceptAll.recording
      TokenStream.twoWords.reader ((), [])).1 ≠ .aborted (.recursionLimit 2) := by
    rw [hlast]
    rintro ⟨⟩
  have hhigher : 2 ≤ 7 := by decide
  have hmatch : (items.matchFrom ⟨2, true⟩ Listener.acceptAll.recording
      TokenStream.twoWords.reader ((), [])).outcome = .success :=
    eq_of_map_matchWithin Result.outcome 20 rfl
  refine ⟨hlimit, hhigher, ?_⟩
  exact ((items.options_only_cut_off ⟨2, true⟩ .acceptAll TokenStream.twoWords.reader ()).1
    hlimit 7 hhigher).2.2.1.trans hmatch

end RuleTable

end TokenGrammar
