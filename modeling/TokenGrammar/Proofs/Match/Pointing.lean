/-
  TokenGrammar.Proofs.Match.Pointing

  Where a diagnostic points that says which token was found in place of another.  Every
  terminal that misses finds the token at the position of the miss
  (`Terminal.showsToken_of_matchAt`), and no other failure is worded like that
  (`Failure.eq_mismatch_of_isExpectation`).  A match that fails is reported by one of its
  local failures as a whole, so its diagnostic points at the token that it names.  A match
  that is stopped by a fatal element passes on the wording of a local failure, but points
  at where the element was attempted, which is another token if the element got further
  than its first one.

  Main statement: `RuleTable.diagnostic_points_at_token`.
-/

import TokenGrammar.Proofs.Match.Coherence
import TokenGrammar.Proofs.Match.Return

namespace TokenGrammar

-- ============================================================================
-- Wording
-- ============================================================================

/-- Whether a message says that something was expected but some token found. -/
def IsExpectation (message : String) : Prop :=
  ∃ what found, message = (Mismatch.expected what found).message

/-- Whether a message says that something was expected but the token at a position
    found. -/
def TokenStream.IsFoundAt (stream : TokenStream) (position : Nat) (message : String) : Prop :=
  ∃ what, message = (Mismatch.expected what (stream.get position)).message

/-- Texts that begin differently differ. -/
theorem append_ne_append {head head' : String} (count : Nat)
    (hhead : count ≤ head.toList.length) (hhead' : count ≤ head'.toList.length)
    (h : head.toList.take count ≠ head'.toList.take count) (tail tail' : String) :
    head ++ tail ≠ head' ++ tail' := by
  intro heq
  have htake := congrArg (fun text : String => text.toList.take count) heq
  simp only [String.toList_append, List.take_append_of_le_length hhead,
    List.take_append_of_le_length hhead'] at htake
  exact h htake

/-- No expectation begins like the name of a base. -/
theorem Expectation.name_append_ne (what : Expectation) (base : NumberBase)
    (tail tail' : String) : base.name ++ tail ≠ what.description ++ tail' := by
  rcases what with (text | category) | _ | _
  · rw [Expectation.description, String.append_assoc, String.append_assoc]
    cases base <;> exact append_ne_append 1 (by decide) (by decide) (by decide) _ _
  · cases category <;> cases base <;>
      exact append_ne_append 2 (by decide) (by decide) (by decide) _ _
  · cases base <;> exact append_ne_append 2 (by decide) (by decide) (by decide) _ _
  · cases base <;> exact append_ne_append 2 (by decide) (by decide) (by decide) _ _

theorem Mismatch.message_expected (what : Expectation) (found : Token) :
    (Mismatch.expected what found).message =
      "expected " ++ (what.description ++ (" but found " ++ found.shown)) := by
  show "expected " ++ what.description ++ " but found " ++ found.shown = _
  simp only [String.append_assoc]

/-- The wording tells which token was found, among those that are shown as long. -/
theorem Mismatch.shown_eq_of_message_eq {what what' : Expectation} {found found' : Token}
    (h : (Mismatch.expected what found).message = (Mismatch.expected what' found').message)
    (hlength : found.shown.toList.length = found'.shown.toList.length) :
    found.shown = found'.shown := by
  rw [message_expected, message_expected] at h
  have hlists := congrArg String.toList h
  simp only [String.toList_append, ← List.append_assoc] at hlists
  exact String.toList_inj.1 (List.append_inj_right' hlists hlength)

theorem not_isExpectation_append {head : String} (count : Nat)
    (hhead : count ≤ head.toList.length) (hcount : count ≤ "expected ".toList.length)
    (h : head.toList.take count ≠ "expected ".toList.take count) (tail : String) :
    ¬ IsExpectation (head ++ tail) := by
  rintro ⟨what, found, heq⟩
  rw [Mismatch.message_expected] at heq
  exact append_ne_append count hhead hcount h tail _ heq

theorem not_isExpectation {message : String} (count : Nat)
    (hmessage : count ≤ message.toList.length) (hcount : count ≤ "expected ".toList.length)
    (h : message.toList.take count ≠ "expected ".toList.take count) :
    ¬ IsExpectation message := by
  rw [← String.append_empty (s := message)]
  exact not_isExpectation_append count hmessage hcount h _

namespace Mismatch

theorem eq_expected_of_isExpectation {mismatch : Mismatch} (h : IsExpectation mismatch.message) :
    ∃ what found, mismatch = .expected what found := by
  cases mismatch with
  | expected what found => exact ⟨what, found, rfl⟩
  | noDigits part base =>
      -- The only other reason that begins with the word `expected`.
      obtain ⟨what, found, heq⟩ := h
      rw [message_expected] at heq
      unfold message at heq
      simp only [String.append_assoc, String.append_right_inj] at heq
      exact absurd heq (what.name_append_ne base _ _)
  | invalidDigit digit part base =>
      unfold message at h
      simp only [String.append_assoc] at h
      exact absurd h (not_isExpectation_append 1 (by decide) (by decide) (by decide) _)
  | invalidExponent text =>
      unfold message at h
      simp only [String.append_assoc] at h
      exact absurd h (not_isExpectation_append 1 (by decide) (by decide) (by decide) _)
  | unterminatedString quote =>
      unfold message at h
      simp only [String.append_assoc] at h
      exact absurd h (not_isExpectation_append 1 (by decide) (by decide) (by decide) _)
  | missingHexExponent => exact absurd h (not_isExpectation 1 (by decide) (by decide) (by decide))
  | secondPoint => exact absurd h (not_isExpectation 1 (by decide) (by decide) (by decide))
  | pointAfterExponent => exact absurd h (not_isExpectation 1 (by decide) (by decide) (by decide))

end Mismatch

/-- Unless a listener found these words, only a terminal that misses is worded so. -/
theorem Failure.eq_mismatch_of_isExpectation {failure : Failure}
    (h : IsExpectation failure.message) (hrejected : ∀ refusal, failure ≠ .rejected refusal) :
    ∃ what found, failure = .mismatch (.expected what found) := by
  cases failure with
  | mismatch cause =>
      unfold message at h
      obtain ⟨what, found, rfl⟩ := Mismatch.eq_expected_of_isExpectation h
      exact ⟨what, found, rfl⟩
  | rejected refusal => exact absurd rfl (hrejected refusal)
  | emptyAlternation =>
      unfold message at h
      exact absurd h (not_isExpectation 2 (by decide) (by decide) (by decide))
  | noAlternative failures =>
      unfold message at h
      exact absurd h (not_isExpectation_append 1 (by decide) (by decide) (by decide) _)
  | alreadySet index =>
      unfold message at h
      simp only [String.append_assoc] at h
      exact absurd h (not_isExpectation_append 1 (by decide) (by decide) (by decide) _)

/-- An alternation that has not matched as a whole is not worded so. -/
theorem Failure.not_isExpectation_of_isOfAlternation {failure : Failure}
    (h : failure.isOfAlternation = true) : ¬ IsExpectation failure.message := by
  intro hmessage
  have hrejected : ∀ refusal, failure ≠ .rejected refusal := by
    rintro refusal rfl
    cases h
  obtain ⟨what, found, rfl⟩ := eq_mismatch_of_isExpectation hmessage hrejected
  cases h

/-- Nor is any other reason to stop than a fatal element. -/
theorem Abort.eq_fatalElement_of_isExpectation {abort : Abort}
    (h : IsExpectation abort.message) (hstopped : ∀ refusal, abort ≠ .stopped refusal) :
    ∃ failure, abort = .fatalElement failure := by
  cases abort with
  | fatalElement failure => exact ⟨failure, rfl⟩
  | stopped refusal => exact absurd rfl (hstopped refusal)
  | noRoot =>
      unfold message at h
      simp only [String.append_assoc] at h
      exact absurd h (not_isExpectation_append 1 (by decide) (by decide) (by decide) _)
  | undefinedRule name =>
      unfold message at h
      simp only [String.append_assoc] at h
      exact absurd h (not_isExpectation_append 1 (by decide) (by decide) (by decide) _)
  | recursionLimit limit =>
      unfold message at h
      simp only [String.append_assoc] at h
      exact absurd h (not_isExpectation_append 1 (by decide) (by decide) (by decide) _)
  | emptyRepetition node =>
      unfold message at h
      simp only [String.append_assoc] at h
      exact absurd h (not_isExpectation_append 1 (by decide) (by decide) (by decide) _)
  | noElement => exact absurd h (not_isExpectation 1 (by decide) (by decide) (by decide))

-- ============================================================================
-- Terminals that miss
-- ============================================================================

/-- Whether the token that a miss tells as found, if it tells one, is the one at its
    position. -/
def Miss.ShowsToken (miss : Miss) (stream : TokenStream) : Prop :=
  ∀ what found, miss.mismatch = .expected what found → found = stream.get miss.position

theorem readDigits_ne_expected {base : NumberBase} {part : NumberPart} {seen : Bool}
    {word : List Char} {mismatch : Mismatch}
    (h : readDigits base part seen word = .error mismatch) (what : Expectation) (found : Token) :
    mismatch ≠ .expected what found := by
  fun_induction readDigits base part seen word with
  | case1 => cases h
  | case2 =>
      cases h
      exact nofun
  | case3 => cases h
  | case4 =>
      cases h
      exact nofun
  | case5 _ _ _ _ _ ih => exact ih h
  | case6 =>
      cases h
      exact nofun

namespace PartialNumber

variable {number : PartialNumber} {miss : Miss}

theorem showsToken_of_withoutPoint {mismatch : Mismatch}
    (h : number.withoutPoint mismatch = .error miss)
    (hmismatch : ∀ what found, mismatch ≠ .expected what found) (stream : TokenStream) :
    miss.ShowsToken stream := by
  unfold withoutPoint at h
  split at h
  · cases h
    exact fun what found heq => absurd heq (hmismatch what found)
  · cases h

theorem showsToken_of_readExponent {position : Nat} {rest : List Char}
    (h : number.readExponent position rest = .error miss) :
    miss.ShowsToken number.reader.stream := by
  unfold readExponent at h
  dsimp only at h
  split at h
  · split at h
    · exact showsToken_of_withoutPoint h (fun _ _ => nofun) _
    · cases h
      rintro what found heq
      cases heq
      rw [← stream_takeSign]
      rfl
  · split at h
    · exact showsToken_of_withoutPoint h (fun _ _ => nofun) _
    · cases h
      exact fun _ _ => nofun

theorem showsToken_of_readFraction {base : NumberBase} (h : number.readFraction base = .error miss) :
    miss.ShowsToken number.reader.stream := by
  unfold readFraction at h
  dsimp only at h
  split at h
  · split at h
    · next hdigits =>
      cases h
      exact fun what found heq => absurd heq (readDigits_ne_expected hdigits what found)
    · rw [← stream_take]
      exact showsToken_of_readExponent h
    · split at h
      · cases h
        exact fun _ _ => nofun
      · exact showsToken_of_withoutPoint h (fun _ _ => nofun) _
  · cases h
    rintro what found heq
    cases heq
    rfl

theorem showsToken_of_readRest {position : Nat} (h : number.readRest position = .error miss) :
    miss.ShowsToken number.reader.stream := by
  unfold readRest at h
  dsimp only at h
  split at h
  · next hdigits =>
    cases h
    exact fun what found heq => absurd heq (readDigits_ne_expected hdigits what found)
  · exact showsToken_of_readExponent h
  · split at h
    · rw [← stream_take]
      exact showsToken_of_readFraction h
    · cases h

end PartialNumber

variable {adjacent : Bool} {reader : Reader} {miss : Miss}

theorem showsToken_of_matchNumber (h : matchNumber adjacent reader = .error miss) :
    miss.ShowsToken reader.stream := by
  unfold matchNumber at h
  dsimp only at h
  split at h
  · split at h
    · next hrest =>
      cases h
      rw [← reader.stream_next adjacent]
      exact PartialNumber.showsToken_of_readRest hrest
    · cases h
  · cases h
    rintro what found heq
    cases heq
    rw [Reader.next_eq]

/-- A string that is missing is missed at the token where it should begin. -/
theorem miss_of_matchString (h : matchString adjacent reader = .error miss) :
    (∃ quote, miss.mismatch = .unterminatedString quote) ∨
      miss = ⟨(reader.next adjacent).position,
        .expected (.terminal (.ofCategory .string)) (reader.next adjacent).token⟩ := by
  unfold matchString at h
  dsimp only at h
  split at h
  · split at h
    · split at h
      · cases h
      · cases h
        exact .inl ⟨_, rfl⟩
    · split at h
      · cases h
      · cases h
        exact .inl ⟨_, rfl⟩
  · cases h
    exact .inr rfl

namespace Terminal

variable {pattern : Terminal}

/-- A single token that is missing is missed at the token where it should be. -/
theorem miss_of_matchSingle (h : pattern.matchSingle adjacent reader = .error miss) :
    miss = ⟨(reader.next adjacent).position,
      .expected (.terminal pattern) (reader.next adjacent).token⟩ := by
  unfold matchSingle at h
  dsimp only at h
  split at h
  · cases h
  · cases h
    rfl

/-- Only a number can be missed behind its first token for what is found there. -/
theorem miss_of_matchAt (hnumber : pattern ≠ .ofCategory .number)
    (h : pattern.matchAt adjacent reader = .error miss) :
    (∃ quote, miss.mismatch = .unterminatedString quote) ∨
      miss = ⟨(reader.next adjacent).position,
        .expected (.terminal pattern) (reader.next adjacent).token⟩ := by
  unfold matchAt at h
  split at h
  · exact absurd rfl hnumber
  · exact miss_of_matchString h
  · exact .inr (miss_of_matchSingle h)

/-- A terminal that misses finds the token at the position of the miss. -/
theorem showsToken_of_matchAt (h : pattern.matchAt adjacent reader = .error miss) :
    miss.ShowsToken reader.stream := by
  by_cases hnumber : pattern = .ofCategory .number
  · subst hnumber
    exact showsToken_of_matchNumber h
  · intro what found heq
    rcases miss_of_matchAt hnumber h with ⟨quote, hquote⟩ | rfl
    · rw [hquote] at heq
      cases heq
    · cases heq
      rw [Reader.next_eq]

end Terminal

-- ============================================================================
-- Local failures of a run that is never refused
-- ============================================================================

namespace Setting

/-- A listener that accepts everything rejects nothing. -/
theorem rejection?_acceptAll {setting : Setting Unit} (h : setting.listener = .acceptAll)
    (event : Event) (track : Track Unit) : setting.rejection? event track = none := by
  unfold rejection? Track.emit
  rw [h]
  rfl

/-- Nor does it stop a run. -/
theorem not_halts_acceptAll {setting : Setting Unit} (h : setting.listener = .acceptAll)
    (refusal : Refusal) : ¬ setting.Halts refusal := by
  rintro ⟨event, track, hstopped⟩
  unfold Track.emit at hstopped
  rw [h] at hstopped
  cases hstopped

variable {setting : Setting Unit} {state : State Unit} {reach : Reach Failure}

/-- Then only a miss goes wrong when a terminal is attempted. -/
theorem exists_miss_of_terminalFailure? (hlistener : setting.listener = .acceptAll)
    {adjacent : Bool} {pattern : Terminal} {track : Track Unit}
    (h : setting.terminalFailure? adjacent pattern track = some reach) :
    ∃ miss, pattern.matchAt adjacent track.reader = .error miss ∧
      reach = ⟨miss.position, .mismatch miss.mismatch, track.scope⟩ := by
  unfold terminalFailure? at h
  rcases hmatch : pattern.matchAt adjacent track.reader with miss | ⟨matched, reader⟩
  · rw [hmatch] at h
    cases h
    exact ⟨miss, rfl, rfl⟩
  · simp only [hmatch, rejection?_acceptAll hlistener, Option.map_none] at h
    cases h

/-- A terminal that is neither a number nor adjacent to what comes before misses the next
    significant token, if it finds another one in its place. -/
theorem position_of_terminalFailure? (hlistener : setting.listener = .acceptAll)
    {pattern : Terminal} {track : Track Unit} (hnumber : pattern ≠ .ofCategory .number)
    (h : setting.terminalFailure? false pattern track = some reach)
    (hmessage : IsExpectation reach.cause.message) :
    reach.position = track.reader.significantPosition := by
  obtain ⟨miss, hmatch, rfl⟩ := exists_miss_of_terminalFailure? hlistener h
  obtain ⟨what, found, hmismatch⟩ := Mismatch.eq_expected_of_isExpectation hmessage
  rcases Terminal.miss_of_matchAt hnumber hmatch with ⟨quote, hquote⟩ | hmiss
  · rw [hquote] at hmismatch
    cases hmismatch
  · rw [hmiss]
    rfl

/-- Then only a miss or a branch that has been taken before goes wrong. -/
theorem localFailure?_cases (hlistener : setting.listener = .acceptAll)
    (h : setting.localFailure? state = some reach) :
    (∃ miss : Miss, miss.ShowsToken state.stream ∧
      reach = ⟨miss.position, .mismatch miss.mismatch, state.track.scope⟩) ∨
    ∃ index, reach.cause = .alreadySet index := by
  unfold localFailure? at h
  split at h
  · cases h
  · split at h
    · obtain ⟨miss, hmatch, hreach⟩ := exists_miss_of_terminalFailure? hlistener h
      exact .inl ⟨miss, Terminal.showsToken_of_matchAt hmatch, hreach⟩
    · rw [enterFailure?, rejection?_acceptAll hlistener] at h
      split at h <;> cases h
    · cases h
    · split at h
      · rw [leaveFailure?, rejection?_acceptAll hlistener] at h
        cases h
      · rw [leaveFailure?, rejection?_acceptAll hlistener] at h
        cases h
      · unfold branchFailure? at h
        split at h
        · cases h
        · split at h
          · cases h
            exact .inr ⟨_, rfl⟩
          · cases h

/-- A local failure that is worded like that names the token at its position. -/
theorem isFoundAt_of_localFailure? (hlistener : setting.listener = .acceptAll)
    (h : setting.localFailure? state = some reach) (hmessage : IsExpectation reach.cause.message) :
    state.stream.IsFoundAt reach.position reach.cause.message := by
  rcases localFailure?_cases hlistener h with ⟨miss, hshows, rfl⟩ | ⟨index, hcause⟩
  · obtain ⟨what, found, hmismatch⟩ :=
      Failure.eq_mismatch_of_isExpectation hmessage fun _ => nofun
    injection hmismatch with hmismatch
    refine ⟨what, ?_⟩
    rw [← hshows what found hmismatch, ← hmismatch]
    rfl
  · rw [hcause] at hmessage
    obtain ⟨what, found, hmismatch⟩ :=
      Failure.eq_mismatch_of_isExpectation hmessage fun _ => nofun
    cases hmismatch

end Setting

-- ============================================================================
-- Failures that are carried on
-- ============================================================================

namespace Setting

variable {setting : Setting σ} {first : Step σ} {remains : Remains} {past : List (State σ)}
  {state : State σ} {failure : Failure}

/-- What a frame fails with is one of the local failures so far, or says that an
    alternation has not matched as a whole. -/
theorem Arrives.carries (hfirst : first.Leaves setting remains)
    (hnone : ∀ failure, ¬ remains.carries failure) (h : setting.Arrives first past state)
    (hphase : state.phase = .failing failure) :
    (∃ reach ∈ past.filterMap setting.localFailure?, reach.cause = failure) ∨
      failure.isOfAlternation = true := by
  induction h generalizing failure with
  | begin hbegin =>
      rw [hbegin] at hfirst
      exact absurd (hfirst.carries_of_next hphase) (hnone failure)
  | @step past state after _ hstep ih =>
      have hleaves := setting.leaves_step state
      rw [hstep] at hleaves
      rcases hleaves.carries_of_next hphase with ⟨reach, hlocal, hcause⟩ | halternation | hfailing
      · exact .inl ⟨reach, List.mem_filterMap.2 ⟨state, List.mem_cons_self, hlocal⟩, hcause⟩
      · exact .inr halternation
      · rcases ih hfailing with ⟨reach, hmem, hcause⟩ | halternation
        · obtain ⟨earlier, hearlier, hlocal⟩ := List.mem_filterMap.1 hmem
          exact .inl ⟨reach, List.mem_filterMap.2
            ⟨earlier, List.mem_cons_of_mem _ hearlier, hlocal⟩, hcause⟩
        · exact .inr halternation

end Setting

-- ============================================================================
-- Local failures of a match
-- ============================================================================

namespace RuleTable

variable {rules : RuleTable} {options : Options} {listener : Listener σ} {reader : Reader}
  {memory : σ}

theorem stream_of_lastStep {ending : Ending} {track : Track σ}
    (h : rules.lastStep options listener reader memory = (ending, track)) :
    track.reader.stream = reader.stream := by
  rw [lastStep_eq_matchRoot] at h
  have hleads := (rules.setting options listener).leads_matchRoot
    (reader.withSkipLines (!rules.usesLineEnds)) memory
  rw [h] at hleads
  exact hleads.stream_eq

/-- A local failure that is worded like that names the token at its position. -/
theorem isFoundAt_of_mem_localFailures {reach : Reach Failure}
    (h : reach ∈ rules.localFailures options .acceptAll reader ())
    (hmessage : IsExpectation reach.cause.message) :
    reader.stream.IsFoundAt reach.position reach.cause.message := by
  rcases hlast : rules.lastStep options .acceptAll reader () with ⟨ending, track⟩
  rw [localFailures_of_lastStep hlast] at h
  rcases List.mem_append.1 h with h | h
  · obtain ⟨state, hstate, hlocal⟩ := List.mem_filterMap.1 h
    rw [← stream_of_mem_trail hstate]
    exact Setting.isFoundAt_of_localFailure? rfl hlocal hmessage
  · have htrailing : ending.trailingFailure? options.requireEnd track = some reach :=
      Option.mem_toList.1 h
    unfold Ending.trailingFailure? at htrailing
    split at htrailing
    · split at htrailing
      · cases htrailing
        rw [← stream_of_lastStep hlast]
        exact ⟨.terminal (.ofCategory .endOfInput), rfl⟩
      · cases htrailing
    · cases htrailing

end RuleTable

-- ============================================================================
-- Fatal elements
-- ============================================================================

namespace Setting

variable {setting : Setting σ} {first : Step σ} {past : List (State σ)} {state : State σ}

/-- A terminal is attempted in no frame of its own. -/
theorem rest_of_attempted?_terminal
    (hcoherent : setting.Coherent state.stack state.track.reader state.track.scopes)
    {modifiers : Modifiers} {span : Span} {pattern : Terminal} {checkpoint : Checkpoint}
    (h : state.attempted? = some (.terminal modifiers span pattern, checkpoint)) :
    state.phase = .matching ∧ checkpoint = state.track.reader.checkpoint ∧
      ∃ rest, state.stack.top.rest = .terminal modifiers span pattern :: rest := by
  unfold State.attempted? at h
  split at h
  · next hphase hrest =>
    cases h
    exact ⟨hphase, rfl, _, hrest⟩
  · obtain ⟨⟨parent, node⟩, hpop, hnode⟩ := Option.map_eq_some_iff.1 h
    cases hnode
    obtain ⟨⟨top, below, room⟩, phase, track⟩ := state
    unfold Stack.pop? at hpop
    dsimp only at hpop
    split at hpop
    · cases hpop
    · next frame below' =>
      split at hpop
      · cases hpop
      · next node' rest hrest =>
        cases hpop
        have hstands := (List.isChain_cons_cons.1 hcoherent.linked).1
        obtain ⟨opener, later, nodes, hopener, hopens, -⟩ := hstands.opened
        rw [hrest] at hopener
        cases hopener
        cases hopens

end Setting

theorem Ending.aborted_of_fatal {ending : Ending} {requireEnd : Bool} {track : Track σ}
    {diagnostic : Diagnostic} (h : ending.outcome requireEnd track = .fatal diagnostic) :
    ∃ abort, ending = .aborted abort ∧ diagnostic =
      .atToken track.reader.stream track.reader.significantPosition abort.message track.scope := by
  cases ending with
  | aborted abort =>
      cases h
      exact ⟨abort, rfl, rfl⟩
  | failed failure => cases h
  | matched =>
      unfold outcome at h
      dsimp only at h
      split at h <;> cases h

namespace Setting

variable {setting : Setting Unit} {past : List (State Unit)} {state : State Unit}
  {failure : Failure} {reader : Reader}

/-- What the step from a state carries on with these words is a local failure of that
    state or of an earlier one. -/
theorem exists_reach_of_carries (hlistener : setting.listener = .acceptAll)
    (harrives : setting.Arrives (setting.start reader ()) past state)
    (hcarries : (setting.remains state).carries failure)
    (hmessage : IsExpectation failure.message) :
    ∃ reach ∈ (state :: past).filterMap setting.localFailure?, reach.cause = failure ∧
      (state.phase = .matching → setting.localFailure? state = some reach) := by
  have hof := mt Failure.not_isExpectation_of_isOfAlternation (not_not_intro hmessage)
  rcases hcarries with ⟨reach, hlocal, hcause⟩ | halternation | hfailing
  · exact ⟨reach, List.mem_filterMap.2 ⟨state, List.mem_cons_self, hlocal⟩, hcause,
      fun _ => hlocal⟩
  · exact absurd halternation hof
  · have hnone : ∀ failure, ¬ ∃ refusal,
        setting.rejection? (.enter rootName)
          (Track.openRule ⟨reader, [], none, ()⟩ rootName) = some refusal ∧
        failure = Failure.rejected refusal := by
      rintro failure ⟨refusal, hrejection, -⟩
      rw [rejection?_acceptAll hlistener] at hrejection
      cases hrejection
    rcases harrives.carries (setting.leaves_start reader ()) hnone hfailing with
      ⟨reach, hmem, hcause⟩ | halternation
    · obtain ⟨earlier, hearlier, hlocal⟩ := List.mem_filterMap.1 hmem
      refine ⟨reach, List.mem_filterMap.2 ⟨earlier, List.mem_cons_of_mem _ hearlier, hlocal⟩,
        hcause, fun hphase => ?_⟩
      rw [hphase] at hfailing
      cases hfailing
    · exact absurd halternation hof

end Setting

-- ============================================================================
-- Whole matches
-- ============================================================================

/-- Whether a diagnostic carries the place of the token at its position. -/
def Diagnostic.IsPlacedIn (diagnostic : Diagnostic) (stream : TokenStream) : Prop :=
  let token := stream.get diagnostic.position
  diagnostic.span = token.span ∧ diagnostic.line = token.line ∧ diagnostic.column = token.column

theorem Diagnostic.isPlacedIn_withNotes {diagnostic : Diagnostic} {stream : TokenStream}
    (h : diagnostic.IsPlacedIn stream) (text : String) :
    (diagnostic.withNotes text).IsPlacedIn stream := by
  unfold withNotes
  split
  · exact h
  · exact h

theorem Track.isPlacedIn_furthest (track : Track σ) (notes : Option String) :
    (track.furthest notes).IsPlacedIn track.reader.stream := by
  unfold furthest
  dsimp only
  cases track.reach with
  | some reach =>
      cases notes with
      | none => exact ⟨rfl, rfl, rfl⟩
      | some text => exact Diagnostic.isPlacedIn_withNotes ⟨rfl, rfl, rfl⟩ text
  | none =>
      cases notes with
      | none => exact ⟨rfl, rfl, rfl⟩
      | some text => exact Diagnostic.isPlacedIn_withNotes ⟨rfl, rfl, rfl⟩ text

theorem Ending.isPlacedIn_of_outcome {ending : Ending} {requireEnd : Bool} {track : Track σ}
    {diagnostic : Diagnostic} (h : (ending.outcome requireEnd track).diagnostic? = some diagnostic) :
    diagnostic.IsPlacedIn track.reader.stream := by
  rcases houtcome : ending.outcome requireEnd track with _ | told | told
  all_goals
    rw [houtcome] at h
    cases h
  · rcases Ending.failure_cases houtcome with ⟨failure, -, rfl⟩ | ⟨-, -, -, rfl⟩
    · exact track.isPlacedIn_furthest _
    · exact (track.offerHere track.trailing).isPlacedIn_furthest none
  · obtain ⟨abort, -, rfl⟩ := Ending.aborted_of_fatal houtcome
    exact ⟨rfl, rfl, rfl⟩

namespace RuleTable

variable {rules : RuleTable} {options : Options} {reader : Reader} {failure : Failure}
  {ending : Ending} {track : Track Unit}

/-- A match that is never refused fails or stops in a state that it arrives at. -/
theorem exists_last_of_failing
    (hlast : rules.lastStep options .acceptAll reader () = (ending, track))
    (hending : ending = .failed failure ∨ ending = .aborted (.fatalElement failure)) :
    ∃ past last,
      (rules.setting options .acceptAll).Arrives
        (rules.firstStep options .acceptAll reader ()) past last ∧
      (rules.setting options .acceptAll).step last = .done ending track ∧
      (rules.setting options .acceptAll).trail
        (rules.firstStep options .acceptAll reader ()) = (last :: past).reverse := by
  refine (Setting.exists_arrives_last hlast).resolve_left fun hdone => ?_
  have hstart := (rules.setting options .acceptAll).leaves_start
    (reader.withSkipLines (!rules.usesLineEnds)) ()
  rw [show Setting.start _ _ _ = _ from hdone] at hstart
  have hnone := @Setting.rejection?_acceptAll (rules.setting options .acceptAll) rfl
    (.enter rootName)
    (Track.openRule ⟨reader.withSkipLines (!rules.usesLineEnds), [], none, ()⟩ rootName)
  rcases hending with rfl | rfl
  · obtain ⟨-, refusal, hrejection, -⟩ := hstart
    rw [hnone] at hrejection
    cases hrejection
  · obtain ⟨⟨refusal, hrejection, -⟩, -⟩ := hstart
    rw [hnone] at hrejection
    cases hrejection

/-- What a fatal element stops a match with, if it is worded like that, names the token at
    the position of a local failure, and a terminal that is neither a number nor adjacent
    to what comes before fails where it is attempted. -/
theorem exists_fatal_element {track : Track Unit}
    (hlast : rules.lastStep options .acceptAll reader () =
      (.aborted (.fatalElement failure), track)) (hmessage : IsExpectation failure.message) :
    ∃ last node checkpoint reach,
      ((rules.setting options .acceptAll).trail
        (rules.firstStep options .acceptAll reader ())).getLast? = some last ∧
      last.attempted? = some (node, checkpoint) ∧ node.modifiers.fatal = true ∧
      track.reader = last.track.reader.seek checkpoint ∧
      reach ∈ rules.localFailures options .acceptAll reader () ∧ reach.cause = failure ∧
      ∀ modifiers span pattern, node = .terminal modifiers span pattern →
        modifiers.adjacent = false → pattern ≠ .ofCategory .number →
        reach.position = track.reader.significantPosition := by
  let setting := rules.setting options .acceptAll
  let begun := reader.withSkipLines (!rules.usesLineEnds)
  obtain ⟨past, last, harrives, hstep, htrail⟩ := exists_last_of_failing hlast (.inr rfl)
  have hleaves := setting.leaves_step last
  rw [hstep] at hleaves
  obtain ⟨hcarries, node, hfatal, checkpoint, hattempted, hreader⟩ := hleaves
  obtain ⟨reach, hmem, hcause, hlocal⟩ :=
    Setting.exists_reach_of_carries rfl harrives hcarries hmessage
  refine ⟨last, node, checkpoint, reach, ?_, hattempted, hfatal, hreader, ?_, hcause, ?_⟩
  · rw [htrail, List.getLast?_reverse]
    rfl
  · rw [localFailures_of_lastStep hlast, htrail, List.filterMap_reverse]
    exact List.mem_append_left _ (List.mem_reverse.2 hmem)
  · rintro modifiers span pattern rfl hadjacent hnumber
    have hsound : (setting.start begun ()).Sound setting 0 := setting.sound_start begun ()
    have hcoherent := harrives.reaches.coherent hsound
    obtain ⟨hphase, rfl, rest, hrest⟩ :=
      Setting.rest_of_attempted?_terminal hcoherent hattempted
    have hterminal := hlocal hphase
    unfold Setting.localFailure? at hterminal
    rw [hphase, hrest] at hterminal
    dsimp only at hterminal
    rw [hadjacent] at hterminal
    rw [← hcause] at hmessage
    rw [hreader, Reader.seek_checkpoint]
    exact Setting.position_of_terminalFailure? rfl hnumber hterminal hmessage

/-- A match that fails and is reported with these words points at the token found. -/
theorem isFoundAt_of_failure {diagnostic : Diagnostic}
    (hlast : rules.lastStep options .acceptAll reader () = (ending, track))
    (h : ending.outcome options.requireEnd track = .failure diagnostic)
    (hmessage : IsExpectation diagnostic.message) :
    reader.stream.IsFoundAt diagnostic.position diagnostic.message := by
  have hends : ∀ abort, ending ≠ .aborted abort := by
    rintro abort rfl
    cases h
  have hfailures := localFailures_of_lastStep hlast
  rcases Ending.told_of_failure h (keeps_of_lastStep hlast hends) with
    ⟨reach, hfirst, htold⟩ | ⟨hnone, failure, rfl, htold⟩
  · rw [← hfailures] at hfirst
    rw [htold.2.1] at hmessage
    rw [htold.1, htold.2.1]
    exact isFoundAt_of_mem_localFailures hfirst.mem hmessage
  · -- Without a local failure nothing is worded like that.
    rw [htold.2.1] at hmessage
    obtain ⟨past, last, harrives, hstep, htrail⟩ := exists_last_of_failing hlast (.inl rfl)
    have hleaves := (rules.setting options .acceptAll).leaves_step last
    rw [hstep] at hleaves
    obtain ⟨reach, hmem, -, -⟩ := Setting.exists_reach_of_carries rfl harrives hleaves.2 hmessage
    rw [htrail, List.filterMap_reverse] at hnone
    rw [List.reverse_eq_nil_iff.1 (List.append_eq_nil_iff.1 hnone).1] at hmem
    cases hmem

/-- A listener that accepts everything does not stop a match. -/
theorem ne_stopped_acceptAll {abort : Abort}
    (hlast : rules.lastStep options .acceptAll reader () = (.aborted abort, track))
    (refusal : Refusal) : abort ≠ .stopped refusal := by
  rintro rfl
  have hhalts : (rules.setting options .acceptAll).Halts refusal := by
    rcases Setting.exists_arrives_last hlast with hdone | ⟨past, last, -, hstep, -⟩
    · have hstart := (rules.setting options .acceptAll).leaves_start
        (reader.withSkipLines (!rules.usesLineEnds)) ()
      rw [show Setting.start _ _ _ = _ from hdone] at hstart
      exact hstart
    · have hleaves := (rules.setting options .acceptAll).leaves_step last
      rw [hstep] at hleaves
      exact hleaves
  exact Setting.not_halts_acceptAll rfl refusal hhalts

/-- Let a listener accept everything and the diagnostic of a match say that something was
    expected but some token found.  Then it carries the place of the token at its position.
    If the match fails, that is the token found.  If it is stopped, a fatal element was
    attempted there, and the token found is that of a local failure; the two are the same
    if the element is a terminal that is neither a number nor adjacent to what comes
    before. -/
theorem diagnostic_points_at_token (rules : RuleTable) (options : Options) (reader : Reader)
    (diagnostic : Diagnostic)
    (h : (rules.matchFrom options .acceptAll reader ()).outcome.diagnostic? = some diagnostic)
    (hmessage : IsExpectation diagnostic.message) :
    let outcome := (rules.matchFrom options .acceptAll reader ()).outcome
    diagnostic.IsPlacedIn reader.stream ∧
    (outcome = .failure diagnostic →
      reader.stream.IsFoundAt diagnostic.position diagnostic.message) ∧
    (outcome = .fatal diagnostic →
      ∃ last node checkpoint reach,
        ((rules.setting options .acceptAll).trail
          (rules.firstStep options .acceptAll reader ())).getLast? = some last ∧
        last.attempted? = some (node, checkpoint) ∧ node.modifiers.fatal = true ∧
        diagnostic.position = (last.track.reader.seek checkpoint).significantPosition ∧
        reach ∈ rules.localFailures options .acceptAll reader () ∧
        reach.cause.message = diagnostic.message ∧
        reader.stream.IsFoundAt reach.position diagnostic.message ∧
        ∀ modifiers span pattern, node = .terminal modifiers span pattern →
          modifiers.adjacent = false → pattern ≠ .ofCategory .number →
          reach.position = diagnostic.position) := by
  intro outcome
  rcases hlast : rules.lastStep options .acceptAll reader () with ⟨ending, track⟩
  have hstream := stream_of_lastStep hlast
  have houtcome : outcome = ending.outcome options.requireEnd track :=
    congrArg Result.outcome (matchFrom_of_lastStep hlast)
  rw [show (rules.matchFrom options .acceptAll reader ()).outcome = _ from houtcome] at h
  rw [houtcome]
  refine ⟨?_, fun hfailure => ?_, fun hfatal => ?_⟩
  · rw [← hstream]
    exact Ending.isPlacedIn_of_outcome h
  · exact isFoundAt_of_failure hlast hfailure hmessage
  · obtain ⟨abort, rfl, rfl⟩ := Ending.aborted_of_fatal hfatal
    obtain ⟨failure, rfl⟩ := Abort.eq_fatalElement_of_isExpectation hmessage
      (ne_stopped_acceptAll hlast)
    obtain ⟨last, node, checkpoint, reach, hgetLast, hattempted, hnode, hreader, hmem, rfl,
      hterminal⟩ := exists_fatal_element hlast hmessage
    have hposition : track.reader.significantPosition =
        (last.track.reader.seek checkpoint).significantPosition := by rw [hreader]
    exact ⟨last, node, checkpoint, reach, hgetLast, hattempted, hnode, hposition, hmem, rfl,
      isFoundAt_of_mem_localFailures hmem hmessage, hterminal⟩

/-- A match that fails points at the second word, which is found in place of an
    integer. -/
theorem diagnostic_points_at_second_word :
    ∃ diagnostic,
      (numberedOrKeyword.matchFrom .default .acceptAll TokenStream.twoWords.reader ()).outcome =
        .failure diagnostic ∧
      diagnostic.position = 3 ∧ diagnostic.message = "expected an integer but found `x`" ∧
      IsExpectation diagnostic.message ∧ diagnostic.IsPlacedIn TokenStream.twoWords ∧
      TokenStream.twoWords.IsFoundAt diagnostic.position diagnostic.message := by
  obtain ⟨failure, track, hlast, hreach⟩ := numberedOrKeyword_fails
  have houtcome := outcome_of_failed hlast
  obtain ⟨hposition, hmessage, -⟩ := Track.isToldBy_furthest hreach (some failure.message)
  have hexpectation : IsExpectation (track.furthest (some failure.message)).message :=
    ⟨_, _, hmessage⟩
  have hpoints := numberedOrKeyword.diagnostic_points_at_token .default
    TokenStream.twoWords.reader _ (congrArg Outcome.diagnostic? houtcome) hexpectation
  exact ⟨_, houtcome, hposition, hmessage, hexpectation, hpoints.1, hpoints.2.1 houtcome⟩

/-- The rules `ROOT := Pair!` and `Pair := ID INTEGER`. -/
def fatalPair : RuleTable where
  rules :=
    [⟨rootName, [.ref ⟨false, false, false, true⟩ .zero "Pair"], .zero⟩,
     ⟨"Pair",
      [.terminal .plain .zero (.ofCategory .identifier),
        .terminal .plain .zero (.ofCategory .integer)], .zero⟩]

/-- A match that a fatal rule stops behind the first word points at that word, and says
    that the second one was found. -/
theorem fatal_rule_points_before_found_token :
    Lexer.base.tokenize "a x" = .twoWords ∧
    ∃ diagnostic,
      (fatalPair.matchFrom .default .acceptAll TokenStream.twoWords.reader ()).outcome =
        .fatal diagnostic ∧
      diagnostic.position = 1 ∧ diagnostic.message = "expected an integer but found `x`" ∧
      IsExpectation diagnostic.message ∧
      ¬ TokenStream.twoWords.IsFoundAt diagnostic.position diagnostic.message := by
  refine ⟨by decide +kernel, ?_⟩
  have hruns : ∃ track,
      (fatalPair.setting .default .acceptAll).runWithin 7
          (fatalPair.firstStep .default .acceptAll TokenStream.twoWords.reader ()) =
        some (.aborted (.fatalElement (.mismatch (.expected (.terminal (.ofCategory .integer))
          (TokenStream.twoWords.get 3)))), track) ∧
      track.reader.significantPosition = 1 := ⟨_, rfl, rfl⟩
  obtain ⟨track, hruns, hposition⟩ := hruns
  have hlast : fatalPair.lastStep .default .acceptAll TokenStream.twoWords.reader () = _ :=
    Setting.complete_of_runWithin hruns
  rw [matchFrom_of_lastStep hlast]
  refine ⟨_, rfl, hposition, rfl, ⟨_, _, rfl⟩, ?_⟩
  rintro ⟨what, hfound⟩
  rw [show Diagnostic.position _ = 1 from hposition] at hfound
  have hshown := Mismatch.shown_eq_of_message_eq hfound (by decide)
  revert hshown
  decide

end RuleTable

end TokenGrammar
