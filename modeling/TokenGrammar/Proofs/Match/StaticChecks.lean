/-
  TokenGrammar.Proofs.Match.StaticChecks

  What the checks of a rule table are good for.  If the table has the rule `ROOT` and no
  undefined references, then whatever a run comes to is there: a run may be stopped by the
  limit on open rules, by a repeated element that matches without any input, by a fatal
  element or by the listener, but not for want of a rule (`Setting.MayStop`).

  Main statement: `RuleTable.checked_rules_are_found`.
-/

import TokenGrammar.Proofs.Match.Effects
import TokenGrammar.Proofs.Match.Pointing
import TokenGrammar.Proofs.Match.Return
import TokenGrammar.Proofs.Match.Termination

namespace TokenGrammar

variable {σ : Type}

namespace Setting

/-- What may stop a run if no rule is missing. -/
inductive MayStop (setting : Setting σ) : Abort → Prop where
  | recursionLimit : MayStop setting (.recursionLimit setting.limit)
  | emptyRepetition {node : Node} (hhas : setting.rules.Has node)
      (hrepeated : node.modifiers.repeated = true) : MayStop setting (.emptyRepetition node)
  | fatalElement {node : Node} {failure : Failure} (hhas : setting.rules.Has node)
      (hfatal : node.modifiers.fatal = true) : MayStop setting (.fatalElement failure)
  | stopped {refusal : Refusal} (hhalts : setting.Halts refusal) :
      MayStop setting (.stopped refusal)

variable {setting : Setting σ}

/-- A run is not stopped for want of a rule then. -/
theorem MayStop.ne_missing {abort : Abort} (h : setting.MayStop abort) :
    abort ≠ .noRoot ∧ ∀ name, abort ≠ .undefinedRule name := by
  cases h with
  | recursionLimit => exact ⟨nofun, fun _ => nofun⟩
  | emptyRepetition => exact ⟨nofun, fun _ => nofun⟩
  | fatalElement => exact ⟨nofun, fun _ => nofun⟩
  | stopped => exact ⟨nofun, fun _ => nofun⟩

/-- A listener that never says so does not stop a run. -/
theorem not_halts {refusal : Refusal}
    (h : ∀ context event memory,
      (setting.listener.respond context event memory).1.verdict ≠ .fatal) :
    ¬setting.Halts refusal := by
  rintro ⟨event, track, hstopped⟩
  have hverdict := h track.context event track.memory
  have hreply : (setting.listener.respond track.context event track.memory).1.reply event =
    .stopped refusal := hstopped
  unfold Response.reply at hreply
  split at hreply
  · cases hreply
  · cases hreply
  · next hfatal => exact hverdict hfatal

/-- To stop, if at all, for one of these reasons. -/
def stopping (setting : Setting σ) : Effect σ where
  leads _ _ := True
  stops _ abort _ := setting.MayStop abort

theorem disregards_stopping (setting : Setting σ) : setting.Disregards setting.stopping where
  refl _ := trivial
  trans _ _ := trivial
  halt _ hstop := hstop
  offer _ _ _ := trivial
  openRule _ _ := trivial
  closeRule _ := trivial
  rewind {s t} _ := by
    unfold wentBack putBack
    rcases hrewind : t.rewind setting.listener s.reader.checkpoint with ⟨_ | refusal, back⟩
    · trivial
    · exact .stopped (halts_of_rewind (congrArg Prod.fst hrewind))
  tell s event := by
    unfold told tell
    rcases hemit : s.emit setting.listener event with ⟨_ | refusal | refusal, told⟩
    · trivial
    · trivial
    · exact .stopped ⟨event, s, congrArg Prod.fst hemit⟩

/-- Matching stops for no other reason if every reference leads to a rule. -/
theorem upholds_stopping (hrefs : setting.rules.undefinedRefs = []) :
    setting.Upholds setting.rules.Has setting.stopping where
  toCarries := setting.disregards_stopping.toCarries
  token {s _ _ _ matched reader} _ _ :=
    setting.disregards_stopping.tell (s.withReader reader) (.token matched)
  rule s _ _ name _ _ hbody := setting.disregards_stopping.matchRule name hbody s
  undefinedRule _ _ _ _ hhas hnone := by
    obtain ⟨nodes, hnodes⟩ := RuleTable.nodes?_of_undefinedRefs_eq_nil hrefs hhas
    rw [hnone] at hnodes
    cases hnodes
  recursionLimit _ := .recursionLimit
  fatalElement _ _ _ hhas hfatal := .fatalElement hhas hfatal
  emptyRepetition hhas hrepeated _ _ := .emptyRepetition hhas hrepeated

/-- A whole run stops for no other reason if the rule to begin with is there, too. -/
theorem mayStop_of_matchRoot (hroot : setting.rules.contains rootName = true)
    (hrefs : setting.rules.undefinedRefs = []) {reader : Reader} {memory : σ} {abort : Abort}
    {track : Track σ} (h : setting.matchRoot reader memory = (.aborted abort, track)) :
    setting.MayStop abort := by
  obtain ⟨nodes, hnodes⟩ := RuleTable.exists_nodes?_of_contains hroot
  have hstops : setting.stopping.Holds ⟨reader, [], none, memory⟩
      (setting.matchRoot reader memory) := by
    unfold matchRoot
    dsimp only
    split
    · next hnone =>
      rw [hnone] at hnodes
      cases hnodes
    · exact .recursionLimit
    · next nodes room hnodes _ =>
      have hupholds := upholds_stopping hrefs
      have hbody := hupholds.matchSequence (RuleTable.has_of_nodes? hnodes) fun node hnode =>
        hupholds.matchNode setting.rules.passes_has room hnode
      exact setting.disregards_stopping.enterRule rootName hbody
        (s := Track.openRule ⟨reader, [], none, memory⟩ rootName) fun failure told htold =>
          hupholds.failAt failure htold
  rw [h] at hstops
  exact hstops

end Setting

namespace RuleTable

/-- A run has come to a step that stops it, because a repeated element has matched and the
    reader is where it was when the element was attempted. -/
def StopsAtEmptyRepetition (rules : RuleTable) (options : Options) (listener : Listener σ)
    (reader : Reader) (memory : σ) (node : Node) : Prop :=
  ∃ state track, (rules.setting options listener).Reaches
      (rules.firstStep options listener reader memory) state ∧
    (rules.setting options listener).step state = .done (.aborted (.emptyRepetition node)) track ∧
    node.modifiers.repeated = true ∧ track.reader.position = state.begun

theorem stopsAtEmptyRepetition_of_lastStep {rules : RuleTable} {options : Options}
    {listener : Listener σ} {reader : Reader} {memory : σ} {node : Node} {track : Track σ}
    (h : rules.lastStep options listener reader memory =
      (.aborted (.emptyRepetition node), track))
    (hrepeated : node.modifiers.repeated = true) :
    rules.StopsAtEmptyRepetition options listener reader memory node := by
  have hfirst : ∀ begun, (rules.firstStep options listener reader memory).Sound
      (rules.setting options listener) begun := fun _ => Setting.sound_start _ _ _
  rcases Setting.exists_last h with hdone | ⟨state, hreaches, hstep⟩
  · -- Before the first step nothing has been attempted.
    rw [hdone] at hfirst
    have hzero : track.reader.position = 0 := hfirst 0
    have hone : track.reader.position = 1 := hfirst 1
    omega
  · have hsound := Setting.sound_step (hreaches.coherent (hfirst 0))
    rw [hstep] at hsound
    exact ⟨state, track, hreaches, hstep, hrepeated, hsound⟩

/-- Let the rules have `ROOT` and no undefined references.  Then a match that is stopped is
    not stopped for want of a rule, whatever the input, the start, the options and the
    listener are.  If moreover no element is fatal and the listener never stops a match, it
    is stopped by the limit on open rules, or by a repeated element that has matched with
    the reader where it was before. -/
theorem checked_rules_are_found (rules : RuleTable) (options : Options) (listener : Listener σ)
    (reader : Reader) (memory : σ) (hroot : rules.contains rootName = true)
    (hrefs : rules.undefinedRefs = []) :
    (∀ abort track, rules.lastStep options listener reader memory = (.aborted abort, track) →
      abort ≠ .noRoot ∧ ∀ name, abort ≠ .undefinedRule name) ∧
    ((∀ name node, (name, node) ∈ rules.visits → node.modifiers.fatal = false) →
      (∀ context event memory, (listener.respond context event memory).1.verdict ≠ .fatal) →
      ∀ diagnostic,
        (rules.matchFrom options listener reader memory).outcome = .fatal diagnostic →
          diagnostic.message = (Abort.recursionLimit options.recursionLimit).message ∧
            (∃ track, rules.lastStep options listener reader memory =
              (.aborted (.recursionLimit options.recursionLimit), track)) ∨
          ∃ node, diagnostic.message = (Abort.emptyRepetition node).message ∧
            rules.StopsAtEmptyRepetition options listener reader memory node) := by
  have hmayStop : ∀ abort track,
      rules.lastStep options listener reader memory = (.aborted abort, track) →
        (rules.setting options listener).MayStop abort := by
    intro abort track hlast
    rw [lastStep_eq_matchRoot] at hlast
    exact Setting.mayStop_of_matchRoot hroot hrefs hlast
  refine ⟨fun abort track hlast => (hmayStop abort track hlast).ne_missing, ?_⟩
  intro hfatal hnever diagnostic houtcome
  rcases hlast : rules.lastStep options listener reader memory with ⟨ending, track⟩
  rw [matchFrom_of_lastStep hlast] at houtcome
  obtain ⟨abort, rfl, rfl⟩ := Ending.aborted_of_fatal houtcome
  cases hmayStop abort track hlast with
  | recursionLimit => exact .inl ⟨rfl, track, rfl⟩
  | emptyRepetition hhas hrepeated =>
      exact .inr ⟨_, rfl, stopsAtEmptyRepetition_of_lastStep hlast hrepeated⟩
  | fatalElement hhas hisFatal =>
      obtain ⟨name, hmem⟩ := hhas
      rw [hfatal name _ hmem] at hisFatal
      cases hisFatal
  | stopped hhalts => exact absurd hhalts (Setting.not_halts hnever)

/-- A match of rules without fatal elements that is stopped once the input is used up, since
    the alternation matches again without any. -/
theorem checked_rules_stop_at_empty_repetition :
    wordOrNothing.contains rootName = true ∧ wordOrNothing.undefinedRefs = [] ∧
    ∃ node diagnostic,
      (wordOrNothing.matchFrom .default .acceptAll TokenStream.word.reader ()).outcome =
        .fatal diagnostic ∧
      diagnostic.message = (Abort.emptyRepetition node).message ∧
      wordOrNothing.StopsAtEmptyRepetition .default .acceptAll TokenStream.word.reader () node := by
  have hroot : wordOrNothing.contains rootName = true := by decide +kernel
  have hrefs : wordOrNothing.undefinedRefs = [] := by decide +kernel
  have hfatal : ∀ name node, (name, node) ∈ wordOrNothing.visits →
      node.modifiers.fatal = false := by
    intro name node hmem
    simp only [visits, wordOrNothing, List.flatMap_cons, List.flatMap_nil, Node.sequenceVisits,
      Node.visits, Node.branchVisits, List.nil_append, List.append_nil, List.map_cons,
      List.map_nil, List.mem_cons, List.not_mem_nil, Prod.mk.injEq, or_false] at hmem
    rcases hmem with ⟨-, rfl⟩ | ⟨-, rfl⟩
    · rfl
    · rfl
  have hruns : ∃ node track,
      (wordOrNothing.setting .default .acceptAll).runWithin 8
        (wordOrNothing.firstStep .default .acceptAll TokenStream.word.reader ()) =
          some (.aborted (.emptyRepetition node), track) := ⟨_, _, rfl⟩
  obtain ⟨node, track, hruns⟩ := hruns
  have hlast : wordOrNothing.lastStep .default .acceptAll TokenStream.word.reader () =
      (.aborted (.emptyRepetition node), track) := Setting.complete_of_runWithin hruns
  have houtcome := congrArg Result.outcome (matchFrom_of_lastStep hlast)
  have hfound := (wordOrNothing.checked_rules_are_found .default .acceptAll
    TokenStream.word.reader () hroot hrefs).2 hfatal (by rintro _ _ _ ⟨⟩) _ houtcome
  rcases hfound with ⟨-, other, hlimit⟩ | ⟨node, hmessage, hstops⟩
  · rw [hlast] at hlimit
    cases hlimit
  · exact ⟨hroot, hrefs, node, _, houtcome, hmessage, hstops⟩

end RuleTable

end TokenGrammar
