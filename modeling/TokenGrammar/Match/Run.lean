/-
  TokenGrammar.Match.Run

  Whole runs of the machine, and what they tell about the input.  Every run ends
  (`Setting.run`), because every step descends.
-/
import TokenGrammar.Grammar.Basic
import TokenGrammar.Match.Descent

namespace TokenGrammar

-- ============================================================================
-- From the first step to the last
-- ============================================================================

namespace Setting

variable {σ : Type}

/-- Bring a run to its end. -/
def run (setting : Setting σ) (state : State σ) : Ending × Track σ :=
  match _ : setting.step state with
  | .done ending track => (ending, track)
  | .next after => setting.run after
termination_by state.rank
decreasing_by exact setting.isLower_of_step (by assumption)

/-- Go on to the end of a run from what a step led to. -/
def complete (setting : Setting σ) : Step σ → Ending × Track σ
  | .done ending track => (ending, track)
  | .next state => setting.run state

theorem run_eq_complete_step (setting : Setting σ) (state : State σ) :
    setting.run state = setting.complete (setting.step state) := by
  rw [run]
  split
  · next h => rw [h]; rfl
  · next h => rw [h]; rfl

/-- A run that takes at most so many steps, if it ends within them. -/
def runWithin (setting : Setting σ) : Nat → Step σ → Option (Ending × Track σ)
  | _, .done ending track => some (ending, track)
  | 0, .next _ => none
  | steps + 1, .next state => setting.runWithin steps (setting.step state)

/-- A run that ends within some steps ends as it does without a bound. -/
theorem complete_of_runWithin {setting : Setting σ} {steps : Nat} {step : Step σ}
    {result : Ending × Track σ} (h : setting.runWithin steps step = some result) :
    setting.complete step = result := by
  induction steps generalizing step with
  | zero =>
    cases step with
    | done ending track => simpa [runWithin, complete] using h
    | next state => simp [runWithin] at h
  | succ steps ih =>
    cases step with
    | done ending track => simpa [runWithin, complete] using h
    | next state =>
      rw [complete, run_eq_complete_step]
      exact ih h

end Setting

-- ============================================================================
-- Outcomes
-- ============================================================================

/-- How to match. -/
structure Options where
  /-- How many rules and alternations may be open at once. -/
  recursionLimit : Nat
  /-- Whether the input has to end where the match does. -/
  requireEnd : Bool
  deriving DecidableEq, Repr

/-- Up to a thousand open rules and alternations, and the whole input. -/
def Options.default : Options := ⟨1000, true⟩

namespace Track

variable {σ : Type}

/-- The diagnostic for the furthest failure, with the lines of `notes` as notes.
    If no failure was offered, it points at the next significant token. -/
def furthest (track : Track σ) (notes : Option String) : Diagnostic :=
  let stream := track.reader.stream
  let diagnostic :=
    match track.reach with
    | some reach => Diagnostic.atToken stream reach.position reach.cause.message reach.rule
    | none =>
      Diagnostic.atToken stream track.reader.significantPosition (notes.getD "") rootName
  match notes with
  | some text => diagnostic.withNotes text
  | none => diagnostic

/-- What is wrong if the input goes on behind the match. -/
def trailing (track : Track σ) : Failure :=
  .mismatch (.expected (.terminal (.ofCategory .endOfInput)) track.reader.peek)

end Track

/-- What the end of a run tells about the input. -/
def Ending.outcome {σ : Type} (ending : Ending) (requireEnd : Bool) (track : Track σ) : Outcome :=
  match ending with
  | .aborted abort =>
    .fatal <| Diagnostic.atToken track.reader.stream track.reader.significantPosition
      abort.message track.scope
  | .matched =>
    if requireEnd && !track.reader.atEnd then
      .failure ((track.offerHere track.trailing).furthest none)
    else .success
  | .failed failure => .failure (track.furthest (some failure.message))

/-- What a run leaves: how it ended, where the reader stands, and what the
    listener remembers. -/
structure Result (σ : Type) where
  outcome : Outcome
  reader : Reader
  memory : σ

/-- Match the rule `ROOT` from where a reader stands.  The reader steps over
    line ends unless some rule asks for them. -/
def RuleTable.matchFrom {σ : Type} (rules : RuleTable) (options : Options) (listener : Listener σ)
    (reader : Reader) (memory : σ) : Result σ :=
  let setting : Setting σ := ⟨rules, options.recursionLimit, listener⟩
  let reader := reader.withSkipLines (!rules.usesLineEnds)
  let (ending, track) := setting.complete (setting.start reader memory)
  ⟨ending.outcome options.requireEnd track, track.reader, track.memory⟩

namespace RuleTable

variable {σ : Type} {rules : RuleTable} {options : Options} {listener : Listener σ}
  {reader : Reader} {memory : σ}

/-- The same, but given up unless it ends within some steps. -/
def matchWithin (rules : RuleTable) (options : Options) (listener : Listener σ) (steps : Nat)
    (reader : Reader) (memory : σ) : Option (Result σ) :=
  let setting : Setting σ := ⟨rules, options.recursionLimit, listener⟩
  let reader := reader.withSkipLines (!rules.usesLineEnds)
  (setting.runWithin steps (setting.start reader memory)).map fun (ending, track) =>
    ⟨ending.outcome options.requireEnd track, track.reader, track.memory⟩

/-- A match that ends within some steps comes to what it comes to without a bound. -/
theorem matchFrom_of_matchWithin {steps : Nat} {result : Result σ}
    (h : rules.matchWithin options listener steps reader memory = some result) :
    rules.matchFrom options listener reader memory = result := by
  obtain ⟨⟨ending, track⟩, hruns, rfl⟩ := Option.map_eq_some_iff.1 h
  rw [matchFrom]
  dsimp only
  rw [Setting.complete_of_runWithin hruns]

/-- So what is asked of a match can be computed, if enough steps are granted. -/
theorem eq_of_map_matchWithin {β : Type} (f : Result σ → β) (steps : Nat) {b : β}
    (h : (rules.matchWithin options listener steps reader memory).map f = some b) :
    f (rules.matchFrom options listener reader memory) = b := by
  obtain ⟨result, hresult, rfl⟩ := Option.map_eq_some_iff.1 h
  rw [matchFrom_of_matchWithin hresult]

end RuleTable

/-- Split a text into tokens and match them from their beginning. -/
def Grammar.parse {σ : Type} (grammar : Grammar) (lexer : Lexer) (text : String)
    (options : Options) (listener : Listener σ) (memory : σ) : Result σ :=
  grammar.rules.matchFrom options listener (lexer.tokenize text).reader memory

end TokenGrammar
