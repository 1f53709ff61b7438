/-
  TokenGrammar.Proofs.Match.Trail

  The states that a run comes to, in order.  A run arrives at a state after the states
  before it (`Setting.Arrives`); so what holds of the first state, and is kept by every
  step given what came before, holds of every state of the run, and of the last one in
  particular (`Setting.exists_arrives_last`).  All of them read the same tokens
  (`RuleTable.stream_of_mem_trail`).
-/

import TokenGrammar.Match.Run

namespace TokenGrammar

variable {σ : Type}

namespace Setting

/-- The states of a run from one of them on, in order. -/
def trailFrom (setting : Setting σ) (state : State σ) : List (State σ) :=
  match _ : setting.step state with
  | .done _ _ => [state]
  | .next after => state :: setting.trailFrom after
termination_by state.rank
decreasing_by exact setting.isLower_of_step (by assumption)

/-- The states that a run comes to, in order, given what it began with. -/
def trail (setting : Setting σ) : Step σ → List (State σ)
  | .done _ _ => []
  | .next state => setting.trailFrom state

/-- A run that began with `first` arrives at a state after some others, the last one
    of them first. -/
inductive Arrives (setting : Setting σ) (first : Step σ) : List (State σ) → State σ → Prop where
  | begin {state : State σ} (h : first = .next state) : Arrives setting first [] state
  | step {past : List (State σ)} {state after : State σ} (h : Arrives setting first past state)
      (hstep : setting.step state = .next after) : Arrives setting first (state :: past) after

theorem trailFrom_of_done {setting : Setting σ} {state : State σ} {ending : Ending}
    {track : Track σ} (h : setting.step state = .done ending track) :
    setting.trailFrom state = [state] := by
  rw [trailFrom]
  split
  · rfl
  · next hnext =>
    rw [h] at hnext
    cases hnext

theorem trailFrom_of_next {setting : Setting σ} {state after : State σ}
    (h : setting.step state = .next after) :
    setting.trailFrom state = state :: setting.trailFrom after := by
  rw [trailFrom]
  split
  · next hdone =>
    rw [h] at hdone
    cases hdone
  · next after' hnext =>
    rw [h] at hnext
    cases hnext
    rfl

/-- The states of a run in order, given up unless there are at most so many. -/
def trailWithin (setting : Setting σ) : Nat → Step σ → Option (List (State σ))
  | _, .done _ _ => some []
  | 0, .next _ => none
  | steps + 1, .next state => (setting.trailWithin steps (setting.step state)).map (state :: ·)

theorem trail_of_trailWithin {setting : Setting σ} {steps : Nat} {first : Step σ}
    {states : List (State σ)} (h : setting.trailWithin steps first = some states) :
    setting.trail first = states := by
  induction steps generalizing first states with
  | zero =>
      cases first with
      | done => simpa [trailWithin, trail] using h
      | next => cases h
  | succ steps ih =>
      cases first with
      | done => simpa [trailWithin, trail] using h
      | next state =>
          obtain ⟨later, hlater, rfl⟩ := Option.map_eq_some_iff.1 h
          rw [← ih hlater]
          cases hstep : setting.step state with
          | done => exact trailFrom_of_done hstep
          | next => exact trailFrom_of_next hstep

/-- What is asked of the states of a run can be computed, if enough of them are granted. -/
theorem eq_of_map_trailWithin {setting : Setting σ} {first : Step σ} {β : Type}
    (f : List (State σ) → β) (steps : Nat) {b : β}
    (h : (setting.trailWithin steps first).map f = some b) : f (setting.trail first) = b := by
  obtain ⟨states, hstates, rfl⟩ := Option.map_eq_some_iff.1 h
  rw [trail_of_trailWithin hstates]

/-- A run ends at once, or with a step from the last state that it arrives at. -/
theorem exists_arrives_last {setting : Setting σ} {first : Step σ} {ending : Ending}
    {track : Track σ} (h : setting.complete first = (ending, track)) :
    first = .done ending track ∨
      ∃ past last, setting.Arrives first past last ∧ setting.step last = .done ending track ∧
        setting.trail first = (last :: past).reverse := by
  cases first with
  | done =>
      cases h
      exact .inl rfl
  | next begun =>
      have hlast : ∀ past state, setting.Arrives (.next begun) past state →
          setting.run state = (ending, track) →
          ∃ past' last, setting.Arrives (.next begun) past' last ∧
            setting.step last = .done ending track ∧
            past.reverse ++ setting.trailFrom state = (last :: past').reverse := by
        intro past state harrives hrun
        fun_induction setting.run state generalizing past with
        | case1 state ending' track' hstep =>
            cases hrun
            refine ⟨past, state, harrives, hstep, ?_⟩
            rw [trailFrom_of_done hstep, List.reverse_cons]
        | case2 state after hstep ih =>
            obtain ⟨past', last, hlast, hdone, htrail⟩ := ih _ (harrives.step hstep) hrun
            refine ⟨past', last, hlast, hdone, ?_⟩
            rw [trailFrom_of_next hstep, ← htrail, List.reverse_cons, List.append_assoc]
            rfl
      exact .inr (hlast [] begun (.begin rfl) h)

-- ----------------------------------------------------------------------------
-- One token stream
-- ----------------------------------------------------------------------------

/-- A run begins in the token stream of its reader. -/
theorem stream_of_start {setting : Setting σ} {state : State σ} {reader : Reader} {memory : σ}
    (h : setting.start reader memory = .next state) : state.stream = reader.stream := by
  unfold start at h
  dsimp only at h
  split at h
  · cases h
  · cases h
  · unfold emitThen at h
    have hreader := Track.reader_emit setting.listener (.enter rootName)
      (Track.openRule ⟨reader, [], none, memory⟩ rootName)
    rcases hemit : Track.emit setting.listener (.enter rootName)
      (Track.openRule ⟨reader, [], none, memory⟩ rootName) with ⟨_ | refusal | refusal, told⟩
    all_goals rw [hemit] at h hreader
    · cases h
      exact congrArg Reader.stream hreader
    · cases h
      exact congrArg Reader.stream hreader
    · cases h

/-- It stays in it. -/
theorem stream_of_mem_trailFrom {setting : Setting σ} {begun state : State σ}
    (h : state ∈ setting.trailFrom begun) :
    state.stream = begun.stream := by
  fun_induction trailFrom setting begun with
  | case1 begun ending track hstep => rw [List.mem_singleton.1 h]
  | case2 begun after hstep ih =>
      rcases List.mem_cons.1 h with rfl | h
      · rfl
      · have hdescends := setting.descends_step begun
        rw [hstep] at hdescends
        rw [ih h, hdescends.1]

end Setting

-- ============================================================================
-- Matching
-- ============================================================================

/-- A match fails because the rule `ROOT` does, or because the input goes on. -/
theorem Ending.failure_cases {ending : Ending} {requireEnd : Bool} {track : Track σ}
    {diagnostic : Diagnostic} (h : ending.outcome requireEnd track = .failure diagnostic) :
    (∃ failure, ending = .failed failure ∧
      diagnostic = track.furthest (some failure.message)) ∨
    (ending = .matched ∧ requireEnd = true ∧ track.reader.atEnd = false ∧
      diagnostic = (track.offerHere track.trailing).furthest none) := by
  cases ending with
  | aborted abort => cases h
  | failed failure =>
      cases h
      exact .inl ⟨failure, rfl, rfl⟩
  | matched =>
      unfold outcome at h
      dsimp only at h
      split at h
      · next hgoesOn =>
        cases h
        rw [Bool.and_eq_true, Bool.not_eq_true'] at hgoesOn
        exact .inr ⟨rfl, hgoesOn.1, hgoesOn.2, rfl⟩
      · cases h

namespace RuleTable

/-- What matching a rule table goes by. -/
def setting (rules : RuleTable) (options : Options) (listener : Listener σ) : Setting σ :=
  ⟨rules, options.recursionLimit, listener⟩

/-- What matching the rule `ROOT` from where a reader stands begins with. -/
def firstStep (rules : RuleTable) (options : Options) (listener : Listener σ) (reader : Reader)
    (memory : σ) : Step σ :=
  (rules.setting options listener).start (reader.withSkipLines (!rules.usesLineEnds)) memory

/-- How matching the rule `ROOT` from where a reader stands ends, and the track that it
    leaves. -/
def lastStep (rules : RuleTable) (options : Options) (listener : Listener σ) (reader : Reader)
    (memory : σ) : Ending × Track σ :=
  (rules.setting options listener).complete (rules.firstStep options listener reader memory)

/-- All states of a match are in the token stream of its reader. -/
theorem stream_of_mem_trail {rules : RuleTable} {options : Options} {listener : Listener σ}
    {reader : Reader} {memory : σ} {state : State σ}
    (h : state ∈ (rules.setting options listener).trail
      (rules.firstStep options listener reader memory)) : state.stream = reader.stream := by
  rcases hfirst : rules.firstStep options listener reader memory with begun | ⟨ending, track⟩
  · rw [hfirst] at h
    have hbegun : begun.stream = (reader.withSkipLines (!rules.usesLineEnds)).stream :=
      Setting.stream_of_start hfirst
    rw [Setting.stream_of_mem_trailFrom h, hbegun]
    rfl
  · rw [hfirst] at h
    cases h

theorem matchFrom_of_lastStep {rules : RuleTable} {options : Options} {listener : Listener σ}
    {reader : Reader} {memory : σ} {ending : Ending} {track : Track σ}
    (h : rules.lastStep options listener reader memory = (ending, track)) :
    rules.matchFrom options listener reader memory =
      ⟨ending.outcome options.requireEnd track, track.reader, track.memory⟩ := by
  have heq : rules.matchFrom options listener reader memory =
      let last := rules.lastStep options listener reader memory
      ⟨last.1.outcome options.requireEnd last.2, last.2.reader, last.2.memory⟩ := rfl
  rw [heq, h]

/-- A match fails if the rule `ROOT` does. -/
theorem outcome_of_failed {rules : RuleTable} {options : Options} {listener : Listener σ}
    {reader : Reader} {memory : σ} {failure : Failure} {track : Track σ}
    (h : rules.lastStep options listener reader memory = (.failed failure, track)) :
    (rules.matchFrom options listener reader memory).outcome =
      .failure (track.furthest (some failure.message)) := by
  rw [matchFrom_of_lastStep h]
  rfl

end RuleTable

end TokenGrammar
