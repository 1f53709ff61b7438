/-
  TokenGrammar.Proofs.Match.Return

  Where a failed match leaves the reader.  If the rule `ROOT` fails, all that was read is
  undone and the reader is where it was.  If the rule matches and the match fails because
  the input has to end there and goes on, nothing is undone: the reader stays behind what
  the rule has matched, as it does when the input need not end there.

  Main statement: `RuleTable.failed_match_returns`.
-/

import TokenGrammar.Proofs.Match.Furthest
import TokenGrammar.Proofs.Match.Simulation

namespace TokenGrammar

variable {σ : Type}

namespace RuleTable

theorem lastStep_eq_matchRoot (rules : RuleTable) (options : Options) (listener : Listener σ)
    (reader : Reader) (memory : σ) :
    rules.lastStep options listener reader memory =
      (rules.setting options listener).matchRoot (reader.withSkipLines (!rules.usesLineEnds))
        memory :=
  Setting.complete_start _ _ _

/-- If the rule `ROOT` fails, the reader is back. -/
theorem reader_of_failed {rules : RuleTable} {options : Options} {listener : Listener σ}
    {reader : Reader} {memory : σ} {failure : Failure} {track : Track σ}
    (h : rules.lastStep options listener reader memory = (.failed failure, track)) :
    track.reader = reader.withSkipLines (!rules.usesLineEnds) := by
  rw [lastStep_eq_matchRoot] at h
  have hrestores := (rules.setting options listener).restores_matchRoot
    (reader.withSkipLines (!rules.usesLineEnds)) memory
  rw [h] at hrestores
  exact hrestores.reader_eq failure rfl

/-- Whatever the rules, the input, the start, the options and the listener are, a failed
    match leaves the reader where it was, but for one case: if the same match succeeds
    once the input need not end where it does, the reader stays where that match leaves
    it, in front of the input that goes on. -/
theorem failed_match_returns (rules : RuleTable) (options : Options) (listener : Listener σ)
    (reader : Reader) (memory : σ) (diagnostic : Diagnostic)
    (h : (rules.matchFrom options listener reader memory).outcome = .failure diagnostic) :
    let result := rules.matchFrom options listener reader memory
    let partly := rules.matchFrom { options with requireEnd := false } listener reader memory
    (partly.outcome ≠ .success → result.reader.position = reader.position ∧
      result.reader = reader.withSkipLines (!rules.usesLineEnds)) ∧
    (partly.outcome = .success → options.requireEnd = true ∧ result.reader = partly.reader ∧
      result.reader.atEnd = false) := by
  intro result partly
  rcases hlast : rules.lastStep options listener reader memory with ⟨ending, track⟩
  have hresult : result = _ := matchFrom_of_lastStep hlast
  have hpartly : partly = ⟨ending.outcome false track, track.reader, track.memory⟩ :=
    @matchFrom_of_lastStep _ rules { options with requireEnd := false } listener reader memory
      ending track hlast
  rw [show (rules.matchFrom options listener reader memory).outcome = _ from
    congrArg Result.outcome hresult] at h
  rw [hresult, hpartly]
  rcases Ending.failure_cases h with ⟨failure, rfl, -⟩ | ⟨rfl, hrequire, hend, -⟩
  · have hback := reader_of_failed hlast
    refine ⟨fun _ => ⟨?_, hback⟩, fun hsuccess => nomatch hsuccess⟩
    show track.reader.position = reader.position
    rw [hback]
    rfl
  · exact ⟨fun hfails => absurd rfl hfails, fun _ => ⟨hrequire, rfl, hend⟩⟩

/-- A reader that went on to the second word is back when both branches have failed. -/
theorem failed_match_returns_from_second_word :
    ∃ diagnostic,
      (numberedOrKeyword.matchFrom .default .acceptAll TokenStream.twoWords.reader ()).outcome =
        .failure diagnostic ∧ diagnostic.position = 3 ∧
      (numberedOrKeyword.matchFrom { Options.default with requireEnd := false } .acceptAll
        TokenStream.twoWords.reader ()).outcome ≠ .success ∧
      (numberedOrKeyword.matchFrom .default .acceptAll
        TokenStream.twoWords.reader ()).reader.position = 0 := by
  let reader : Reader := TokenStream.twoWords.reader
  obtain ⟨failure, track, hlast, hreach⟩ := numberedOrKeyword_fails
  have houtcome := outcome_of_failed hlast
  have hpartly : (numberedOrKeyword.matchFrom { Options.default with requireEnd := false }
      .acceptAll reader ()).outcome ≠ .success := by
    rw [@outcome_of_failed _ numberedOrKeyword { Options.default with requireEnd := false }
      .acceptAll reader () failure track hlast]
    exact fun hsuccess => nomatch hsuccess
  have hreturns :=
    numberedOrKeyword.failed_match_returns .default .acceptAll reader () _ houtcome
  exact ⟨_, houtcome, (Track.isToldBy_furthest hreach _).1, hpartly,
    (hreturns.1 hpartly).1⟩

/-- The rule `ROOT := ID`. -/
def oneWord : RuleTable where
  rules := [⟨rootName, [.terminal .plain .zero (.ofCategory .identifier)], .zero⟩]

/-- A match that fails because a second word follows the one that the rule `ROOT`
    matches does not go back: the reader stays behind the first word. -/
theorem trailing_word_keeps_reader :
    ∃ diagnostic,
      (oneWord.matchFrom .default .acceptAll TokenStream.twoWords.reader ()).outcome =
        .failure diagnostic ∧
      TokenStream.twoWords.reader.position = 0 ∧
      (oneWord.matchFrom .default .acceptAll TokenStream.twoWords.reader ()).reader.position =
        2 := by
  have hruns : ∃ track,
      (oneWord.setting .default .acceptAll).runWithin 2
          (oneWord.firstStep .default .acceptAll TokenStream.twoWords.reader ()) =
        some (.matched, track) ∧ track.reader.atEnd = false ∧ track.reader.position = 2 :=
    ⟨_, rfl, rfl, rfl⟩
  obtain ⟨track, hruns, hend, hposition⟩ := hruns
  have hlast : oneWord.lastStep .default .acceptAll TokenStream.twoWords.reader () =
      (.matched, track) := Setting.complete_of_runWithin hruns
  rw [matchFrom_of_lastStep hlast]
  refine ⟨(track.offerHere track.trailing).furthest none, ?_, rfl, hposition⟩
  rw [Ending.outcome, hend]
  rfl

end RuleTable

end TokenGrammar
