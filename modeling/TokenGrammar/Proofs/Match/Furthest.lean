/-
  TokenGrammar.Proofs.Match.Furthest

  Which failure a match that fails is reported by.  What the track keeps of the local
  failures of a run is the first of those that lie furthest into the input
  (`Reach.Keeps`), because every step offers the local failure of its state and no other
  (`Setting.leaves_step`).

  Main statement: `RuleTable.failure_points_at_furthest`.
-/

import TokenGrammar.Proofs.Match.LocalFailure

namespace TokenGrammar

variable {σ : Type}

-- ============================================================================
-- The first of the furthest failures
-- ============================================================================

namespace Reach

variable {α : Type}

/-- A failure is the first of those among some failures that lie furthest. -/
def IsFirstFurthest (reach : Reach α) (failures : List (Reach α)) : Prop :=
  ∃ before after, failures = before ++ reach :: after ∧
    (∀ other ∈ before, other.position < reach.position) ∧
    ∀ other ∈ after, other.position ≤ reach.position

/-- What is kept of some failures: nothing if there are none, otherwise the first of the
    furthest ones. -/
def Keeps (failures : List (Reach α)) : Option (Reach α) → Prop
  | none => failures = []
  | some reach => reach.IsFirstFurthest failures

variable {failures : List (Reach α)} {kept : Option (Reach α)}

theorem IsFirstFurthest.mem {reach : Reach α} (h : reach.IsFirstFurthest failures) :
    reach ∈ failures := by
  obtain ⟨before, after, rfl, -, -⟩ := h
  exact List.mem_append_right _ List.mem_cons_self

theorem IsFirstFurthest.position_le {reach : Reach α} (h : reach.IsFirstFurthest failures) :
    ∀ other ∈ failures, other.position ≤ reach.position := by
  obtain ⟨before, after, rfl, hbefore, hafter⟩ := h
  intro other hother
  rcases List.mem_append.1 hother with hother | hother
  · exact Nat.le_of_lt (hbefore other hother)
  · rcases List.mem_cons.1 hother with rfl | hother
    · exact Nat.le_refl _
    · exact hafter other hother

theorem Keeps.offer (h : Keeps failures kept) (candidate : Reach α) :
    Keeps (failures ++ [candidate]) (Reach.offer kept candidate) := by
  unfold Reach.offer
  cases kept with
  | none =>
      rw [show failures = [] from h]
      exact ⟨[], [], rfl, List.forall_mem_nil _, List.forall_mem_nil _⟩
  | some reach =>
      have hreach : reach.IsFirstFurthest failures := h
      by_cases hfurther : reach.position < candidate.position
      · have hreplaces : candidate.isFurther (some reach) = true := decide_eq_true hfurther
        rw [if_pos hreplaces]
        refine ⟨failures, [], rfl, fun other hother => ?_, List.forall_mem_nil _⟩
        exact Nat.lt_of_le_of_lt (hreach.position_le other hother) hfurther
      · have hstays : candidate.isFurther (some reach) = false := decide_eq_false hfurther
        rw [hstays, if_neg Bool.false_ne_true]
        obtain ⟨before, after, rfl, hbefore, hafter⟩ := hreach
        refine ⟨before, after ++ [candidate], List.append_assoc _ _ _, hbefore, ?_⟩
        intro other hother
        rcases List.mem_append.1 hother with hother | hother
        · exact hafter other hother
        · rw [List.mem_singleton.1 hother]
          exact Nat.le_of_not_lt hfurther

theorem Keeps.offer? (h : Keeps failures kept) (candidate? : Option (Reach α)) :
    Keeps (failures ++ candidate?.toList) (Reach.offer? kept candidate?) := by
  cases candidate? with
  | none =>
      rw [Option.toList_none, List.append_nil]
      exact h
  | some candidate => exact h.offer candidate

end Reach

-- ============================================================================
-- Whole runs
-- ============================================================================

namespace Setting

variable {setting : Setting σ} {first : Step σ} {remains : Remains}

/-- In every state of a run, the track keeps the first of the furthest failures so
    far. -/
theorem Arrives.keeps (hfirst : first.Leaves setting remains) (hnone : remains.kept = none)
    {past : List (State σ)} {state : State σ} (h : setting.Arrives first past state) :
    Reach.Keeps (past.reverse.filterMap setting.localFailure?) state.track.reach := by
  induction h with
  | begin hbegin =>
      rw [hbegin] at hfirst
      rw [hfirst.reach_of_next, hnone]
      rfl
  | @step past state after _ hstep ih =>
      have hleaves := setting.leaves_step state
      rw [hstep] at hleaves
      rw [hleaves.reach_of_next, List.reverse_cons, List.filterMap_append]
      exact ih.offer? (setting.localFailure? state)

/-- At the end of a run that does not stop before its time as well. -/
theorem keeps_trail (hfirst : first.Leaves setting remains) (hnone : remains.kept = none)
    {ending : Ending} {track : Track σ} (h : setting.complete first = (ending, track))
    (hends : ∀ abort, ending ≠ .aborted abort) :
    Reach.Keeps ((setting.trail first).filterMap setting.localFailure?) track.reach := by
  rcases exists_arrives_last h with hdone | ⟨past, last, harrives, hstep, htrail⟩
  · rw [hdone] at hfirst ⊢
    rw [hfirst.reach_of_done hends, hnone]
    rfl
  · have hleaves := setting.leaves_step last
    rw [hstep] at hleaves
    rw [hleaves.reach_of_done hends, htrail, List.reverse_cons, List.filterMap_append]
    exact (harrives.keeps hfirst hnone).offer? (setting.localFailure? last)

end Setting

-- ============================================================================
-- Diagnostics
-- ============================================================================

namespace Diagnostic

theorem position_withNotes (diagnostic : Diagnostic) (text : String) :
    (diagnostic.withNotes text).position = diagnostic.position := by
  unfold withNotes
  split <;> rfl

theorem message_withNotes (diagnostic : Diagnostic) (text : String) :
    (diagnostic.withNotes text).message = diagnostic.message := by
  unfold withNotes
  split <;> rfl

theorem rule_withNotes (diagnostic : Diagnostic) (text : String) :
    (diagnostic.withNotes text).rule = diagnostic.rule := by
  unfold withNotes
  split <;> rfl

end Diagnostic

/-- What a diagnostic tells is a failure with its position, message and rule. -/
def Reach.IsToldBy (reach : Reach Failure) (diagnostic : Diagnostic) : Prop :=
  diagnostic.position = reach.position ∧ diagnostic.message = reach.cause.message ∧
    diagnostic.rule = reach.rule

/-- The diagnostic of a failed match tells the failure that the track has kept. -/
theorem Track.isToldBy_furthest {track : Track σ} {reach : Reach Failure}
    (h : track.reach = some reach) (notes : Option String) :
    reach.IsToldBy (track.furthest notes) := by
  unfold Track.furthest
  rw [h]
  cases notes with
  | none => exact ⟨rfl, rfl, rfl⟩
  | some text =>
      exact ⟨Diagnostic.position_withNotes _ _, Diagnostic.message_withNotes _ _,
        Diagnostic.rule_withNotes _ _⟩

/-- If it has kept none, the diagnostic tells what the rule `ROOT` failed with. -/
theorem Track.isToldBy_furthest_of_none {track : Track σ} (h : track.reach = none)
    (failure : Failure) :
    (Reach.mk track.reader.significantPosition failure rootName).IsToldBy
      (track.furthest (some failure.message)) := by
  unfold Track.furthest
  rw [h]
  exact ⟨Diagnostic.position_withNotes _ _, Diagnostic.message_withNotes _ _,
    Diagnostic.rule_withNotes _ _⟩

/-- The diagnostic of a match that fails tells the first of the furthest failures, those
    that the track has kept and the one at the end of the run. -/
theorem Ending.told_of_failure {ending : Ending} {requireEnd : Bool} {track : Track σ}
    {diagnostic : Diagnostic} {failures : List (Reach Failure)}
    (h : ending.outcome requireEnd track = .failure diagnostic)
    (hkeeps : Reach.Keeps failures track.reach) :
    let all := failures ++ (ending.trailingFailure? requireEnd track).toList
    (∃ reach : Reach Failure, reach.IsFirstFurthest all ∧ reach.IsToldBy diagnostic) ∨
    (all = [] ∧ ∃ failure, ending = .failed failure ∧
      (Reach.mk track.reader.significantPosition failure rootName).IsToldBy diagnostic) := by
  rcases Ending.failure_cases h with ⟨failure, rfl, rfl⟩ | ⟨rfl, hrequire, hend, rfl⟩
  · simp only [trailingFailure?, Option.toList_none, List.append_nil]
    cases hreach : track.reach with
    | some reach =>
        rw [hreach] at hkeeps
        exact .inl ⟨reach, hkeeps, Track.isToldBy_furthest hreach _⟩
    | none =>
        rw [hreach] at hkeeps
        exact .inr ⟨hkeeps, failure, rfl, Track.isToldBy_furthest_of_none hreach failure⟩
  · have hgoesOn : (requireEnd && !track.reader.atEnd) = true := by
      rw [hrequire, hend]
      rfl
    simp only [trailingFailure?, if_pos hgoesOn, Option.toList_some]
    have hoffered := hkeeps.offer
      ⟨track.reader.significantPosition, track.trailing, track.scope⟩
    rcases hreach : (track.offerHere track.trailing).reach with _ | reach
    · rw [show Reach.offer _ _ = none from hreach] at hoffered
      exact absurd hoffered (List.append_ne_nil_of_right_ne_nil _ (List.cons_ne_nil _ _))
    · rw [show Reach.offer _ _ = some reach from hreach] at hoffered
      exact .inl ⟨reach, hoffered, Track.isToldBy_furthest hreach none⟩

/-- The tokens of the text `a x`. -/
def TokenStream.twoWords : TokenStream where
  tokens :=
    #[⟨.beginning, "", ⟨0, 0⟩, 1, 1⟩, ⟨.identifier, "a", ⟨0, 1⟩, 1, 1⟩,
      ⟨.space, " ", ⟨1, 2⟩, 1, 2⟩, ⟨.identifier, "x", ⟨2, 3⟩, 1, 3⟩]
  ending := ⟨.ending, "", ⟨3, 3⟩, 1, 4⟩

namespace RuleTable

theorem localFailures_of_lastStep {rules : RuleTable} {options : Options}
    {listener : Listener σ} {reader : Reader} {memory : σ} {ending : Ending} {track : Track σ}
    (h : rules.lastStep options listener reader memory = (ending, track)) :
    rules.localFailures options listener reader memory =
      ((rules.setting options listener).trail
        (rules.firstStep options listener reader memory)).filterMap
          (rules.setting options listener).localFailure? ++
        (ending.trailingFailure? options.requireEnd track).toList := by
  rw [localFailures, h]

/-- Unless a run stops before its time, its track keeps the first of the furthest
    failures of its states. -/
theorem keeps_of_lastStep {rules : RuleTable} {options : Options} {listener : Listener σ}
    {reader : Reader} {memory : σ} {ending : Ending} {track : Track σ}
    (h : rules.lastStep options listener reader memory = (ending, track))
    (hends : ∀ abort, ending ≠ .aborted abort) :
    Reach.Keeps
      (((rules.setting options listener).trail
        (rules.firstStep options listener reader memory)).filterMap
          (rules.setting options listener).localFailure?) track.reach :=
  Setting.keeps_trail ((rules.setting options listener).leaves_start
    (reader.withSkipLines (!rules.usesLineEnds)) memory) rfl h hends

/-- Whatever the rules, the input, the start and the listener are, a match that fails is
    reported by the first of its local failures that lie furthest into the input, or, if
    it has none, by what the rule `ROOT` failed with, at the next significant token. -/
theorem failure_points_at_furthest (rules : RuleTable) (options : Options)
    (listener : Listener σ) (reader : Reader) (memory : σ) (diagnostic : Diagnostic)
    (h : (rules.matchFrom options listener reader memory).outcome = .failure diagnostic) :
    let failures := rules.localFailures options listener reader memory
    (∃ reach : Reach Failure, reach.IsFirstFurthest failures ∧ reach.IsToldBy diagnostic) ∨
    (failures = [] ∧ ∃ failure,
      (rules.lastStep options listener reader memory).1 = .failed failure ∧
      (Reach.mk (rules.matchFrom options listener reader memory).reader.significantPosition
        failure rootName).IsToldBy diagnostic) := by
  intro failures
  rcases hlast : rules.lastStep options listener reader memory with ⟨ending, track⟩
  have hfailures : failures = _ := localFailures_of_lastStep hlast
  rw [hfailures]
  rw [matchFrom_of_lastStep hlast] at h ⊢
  have hends : ∀ abort, ending ≠ .aborted abort := by
    rintro abort rfl
    cases h
  exact Ending.told_of_failure h (keeps_of_lastStep hlast hends)

/-- The rule `ROOT := [ ID INTEGER | KEYWORD ]`. -/
def numberedOrKeyword : RuleTable where
  rules :=
    [⟨rootName,
      [.alternation .plain .zero
        [[.terminal .plain .zero (.ofCategory .identifier),
          .terminal .plain .zero (.ofCategory .integer)],
         [.terminal .plain .zero (.ofCategory .keyword)]] false], .zero⟩]

/-- Matching two words by that rule fails, and the second word is what it tells. -/
theorem numberedOrKeyword_fails :
    ∃ failure track,
      numberedOrKeyword.lastStep .default .acceptAll TokenStream.twoWords.reader () =
        (.failed failure, track) ∧
      track.reach = some ⟨3, .mismatch (.expected (.terminal (.ofCategory .integer))
        (TokenStream.twoWords.get 3)), rootName⟩ := by
  have hruns : ∃ failure track,
      (numberedOrKeyword.setting .default .acceptAll).runWithin 7
          (numberedOrKeyword.firstStep .default .acceptAll TokenStream.twoWords.reader ()) =
        some (.failed failure, track) ∧
      track.reach = some ⟨3, .mismatch (.expected (.terminal (.ofCategory .integer))
        (TokenStream.twoWords.get 3)), rootName⟩ := ⟨_, _, rfl, rfl⟩
  obtain ⟨failure, track, hruns, hreach⟩ := hruns
  exact ⟨failure, track, Setting.complete_of_runWithin hruns, hreach⟩

/-- A branch that is abandoned behind its first word is what a failed match is reported
    by, and not the later branch that fails at that word. -/
theorem failure_points_at_abandoned_branch :
    ∃ (diagnostic : Diagnostic) (reach : Reach Failure),
      (numberedOrKeyword.matchFrom .default .acceptAll TokenStream.twoWords.reader ()).outcome =
        .failure diagnostic ∧
      (numberedOrKeyword.localFailures .default .acceptAll TokenStream.twoWords.reader ()).map
        Reach.position = [3, 1] ∧
      reach.IsFirstFurthest
        (numberedOrKeyword.localFailures .default .acceptAll TokenStream.twoWords.reader ()) ∧
      reach.IsToldBy diagnostic ∧ diagnostic.position = 3 := by
  let reader : Reader := TokenStream.twoWords.reader
  obtain ⟨failure, track, hlast, hreach⟩ := numberedOrKeyword_fails
  have houtcome := outcome_of_failed hlast
  have hdiagnostic : (track.furthest (some failure.message)).position = 3 :=
    (Track.isToldBy_furthest hreach _).1
  have hpositions : (numberedOrKeyword.localFailures .default .acceptAll reader ()).map
      Reach.position = [3, 1] := by
    rw [localFailures_of_lastStep hlast]
    change List.map Reach.position (_ ++ []) = _
    rw [List.append_nil]
    exact Setting.eq_of_map_trailWithin (fun states => (states.filterMap
      (numberedOrKeyword.setting .default .acceptAll).localFailure?).map Reach.position) 20 (by rfl)
  rcases numberedOrKeyword.failure_points_at_furthest .default .acceptAll reader () _
    houtcome with ⟨reach, hfirst, htold⟩ | ⟨hnone, -⟩
  · exact ⟨_, reach, houtcome, hpositions, hfirst, htold, hdiagnostic⟩
  · rw [hnone] at hpositions
    cases hpositions

end RuleTable

end TokenGrammar
