/-
  TokenGrammar.Proofs.Match.Memories

  What a listener remembers.  Let one listener answer as another one does, and remember an
  image of what that one remembers.  Then their runs come out alike, and at the end the
  one remembers the image of what the other does, whatever it is used for in between.

  So the outcome of a match is the same with and without a trace, and the lines of a trace
  are the lines for the events of the match, behind those that were there before.

  Main statements: `RuleTable.matchFrom_of_mirrors`, `RuleTable.matchFrom_trace`.
-/

import TokenGrammar.Match.Trace
import TokenGrammar.Proofs.Match.Return
import TokenGrammar.Proofs.Match.SideBySide

namespace TokenGrammar

variable {σ τ : Type}

-- ============================================================================
-- Listeners that mirror others
-- ============================================================================

/-- Whether a listener answers as another one does, and remembers the image of what that
    one remembers. -/
def Listener.Mirrors (mirror : Listener τ) (image : σ → τ) (listener : Listener σ) : Prop :=
  ∀ context event memory,
    mirror.respond context event (image memory) =
      Prod.map id image (listener.respond context event memory)

/-- The result of a match whose listener remembers something else. -/
def Result.mapMemory (image : σ → τ) (result : Result σ) : Result τ :=
  ⟨result.outcome, result.reader, image result.memory⟩

namespace Track

/-- A track whose listener remembers something else. -/
def mapMemory (image : σ → τ) (track : Track σ) : Track τ :=
  ⟨track.reader, track.scopes, track.reach, image track.memory⟩

variable {image : σ → τ} {listener : Listener σ} {mirror : Listener τ}

theorem emit_mapMemory (h : mirror.Mirrors image listener) (event : Event) (track : Track σ) :
    (track.mapMemory image).emit mirror event =
      Prod.map id (mapMemory image) (track.emit listener event) := by
  have hrespond : mirror.respond track.context event (image track.memory) = _ := h _ _ _
  unfold emit
  rw [show (track.mapMemory image).context = track.context from rfl,
    show (track.mapMemory image).memory = image track.memory from rfl, hrespond]
  rfl

theorem rewind_mapMemory (h : mirror.Mirrors image listener) (checkpoint : Checkpoint)
    (track : Track σ) :
    (track.mapMemory image).rewind mirror checkpoint =
      Prod.map id (mapMemory image) (track.rewind listener checkpoint) := by
  have hemit := emit_mapMemory h (.rewind checkpoint.position)
    (track.withReader (track.reader.seek checkpoint))
  unfold rewind
  rw [show (track.mapMemory image).reader = track.reader from rfl,
    show (track.mapMemory image).withReader (track.reader.seek checkpoint) =
      (track.withReader (track.reader.seek checkpoint)).mapMemory image from rfl]
  dsimp only
  split
  · rw [hemit]
    rcases emit listener (.rewind checkpoint.position)
      (track.withReader (track.reader.seek checkpoint)) with ⟨_ | refusal | refusal, told⟩
    · rfl
    · rfl
    · rfl
  · rfl

end Track

-- ============================================================================
-- Runs beside their mirrors
-- ============================================================================

namespace Setting

/-- A run beside one whose listener remembers an image. -/
def mirroring (image : σ → τ) : Pairing σ τ where
  node m n := m = n
  track t u := u = t.mapMemory image
  failure f g := f = g
  stop a t b u := a = b ∧ u = t.mapMemory image

variable {image : σ → τ} {listener : Listener σ} {mirror : Listener τ}

theorem mirroring_map (passage : Passage σ) :
    (mirroring image).Passages passage (Prod.map id (Track.mapMemory image) passage) := by
  rcases passage with ⟨_ | failure | abort, track⟩
  · exact .matched rfl
  · exact .failed rfl rfl
  · exact .stopped ⟨rfl, rfl⟩

theorem mirroring_told (h : mirror.Mirrors image listener) (rules : RuleTable) (options : Options)
    (event : Event) (track : Track σ) :
    (mirroring image).Passages ((rules.setting options listener).told event track)
      ((rules.setting options mirror).told event (track.mapMemory image)) := by
  have htold : (rules.setting options mirror).told event (track.mapMemory image) =
      Prod.map id (Track.mapMemory image) ((rules.setting options listener).told event track) := by
    unfold told tell
    rw [show (rules.setting options mirror).listener = mirror from rfl,
      show (rules.setting options listener).listener = listener from rfl,
      Track.emit_mapMemory h]
    rcases track.emit listener event with ⟨_ | refusal | refusal, told⟩
    · rfl
    · rfl
    · rfl
  exact htold ▸ mirroring_map _

theorem mirroring_wentBack (h : mirror.Mirrors image listener) (rules : RuleTable)
    (options : Options) (checkpoint : Checkpoint) (track : Track σ) :
    (mirroring image).Passages ((rules.setting options listener).wentBack checkpoint track)
      ((rules.setting options mirror).wentBack checkpoint (track.mapMemory image)) := by
  have hback : (rules.setting options mirror).wentBack checkpoint (track.mapMemory image) =
      Prod.map id (Track.mapMemory image)
        ((rules.setting options listener).wentBack checkpoint track) := by
    unfold wentBack putBack
    rw [show (rules.setting options mirror).listener = mirror from rfl,
      show (rules.setting options listener).listener = listener from rfl,
      Track.rewind_mapMemory h]
    rcases track.rewind listener checkpoint with ⟨_ | refusal, back⟩
    · rfl
    · rfl
  exact hback ▸ mirroring_map _

/-- Nothing that matching does by itself depends on what the listener remembers. -/
theorem inStep_mirroring (h : mirror.Mirrors image listener) (rules : RuleTable)
    (options : Options) :
    (rules.setting options listener).InStep (rules.setting options mirror) (mirroring image) where
  alike := by
    rintro node _ rfl
    exact Node.alike_self rules.passes_true (fun _ _ => rfl) trivial
  modifiers := by
    rintro node _ rfl
    exact ⟨rfl, rfl, rfl⟩
  enter := by
    rintro track _ name rfl
    exact mirroring_told h rules options _ (track.openRule name)
  leave := by
    rintro track _ name rfl
    exact mirroring_told h rules options _ track
  closeRule := by
    rintro track _ rfl
    rfl
  offerHere := by
    rintro track _ failure _ rfl rfl
    rfl
  wentBack := by
    rintro start track _ _ rfl rfl
    exact mirroring_wentBack h rules options start.reader.checkpoint track
  terminal := by
    rintro modifiers _ span _ pattern _ track _ hnode rfl
    cases hnode
    have hreader : track.reader = (track.mapMemory image).reader := rfl
    apply passages_matchTerminal modifiers.adjacent pattern hreader rfl fun _ => rfl
    · rintro track _ failure _ position rfl rfl
      rfl
    · exact fun matched behind _ => mirroring_told h rules options _ (track.withReader behind)
    · rintro back _ rfl
      exact mirroring_wentBack h rules options track.reader.checkpoint back
  noAlternative h := congrArg Failure.noAlternative (List.forall₂_eq_eq_eq ▸ h)
  emptyAlternation := rfl
  alreadySet _ := rfl
  undefinedRule _ h := ⟨rfl, h⟩
  recursionLimit h := ⟨rfl, h⟩
  fatalElement hfailure h := ⟨congrArg Abort.fatalElement hfailure, h⟩
  emptyRepetition hnode h := ⟨congrArg Abort.emptyRepetition hnode, h⟩
  onlyLeft := by
    rintro room m n taken taken' t after _ _ passes _ _ _ rfl _ _ rfl hfurther hnot
    exact absurd hfurther hnot
  onlyRight := by
    rintro room m n taken taken' t after _ _ passes _ _ _ rfl _ _ rfl hnot hfurther
    exact absurd hfurther hnot

/-- Runs that come out alike tell the same. -/
theorem outcome_of_mirroring {ending ending' : Ending} {t : Track σ} {u : Track τ}
    (h : (mirroring image).Passages (ending, t) (ending', u)) (requireEnd : Bool) :
    ending'.outcome requireEnd u = ending.outcome requireEnd t ∧ u = t.mapMemory image := by
  cases h with
  | matched h =>
      obtain rfl : u = t.mapMemory image := h
      exact ⟨rfl, rfl⟩
  | failed hfailure h =>
      rw [show u = _ from h, ← show _ = _ from hfailure]
      exact ⟨rfl, rfl⟩
  | stopped h =>
      obtain ⟨rfl, rfl⟩ := h
      exact ⟨rfl, rfl⟩
  | exemptLeft h => exact h.elim
  | exemptRight h => exact h.elim

end Setting

-- ============================================================================
-- Matches
-- ============================================================================

/-- A match whose listener mirrors another one comes out as the match with that one does,
    whatever the rules, the options, the input and the start are, and leaves the image of
    what that one leaves. -/
theorem RuleTable.matchFrom_of_mirrors {image : σ → τ} {listener : Listener σ}
    {mirror : Listener τ} (h : mirror.Mirrors image listener) (rules : RuleTable)
    (options : Options) (reader : Reader) (memory : σ) :
    rules.matchFrom options mirror reader (image memory) =
      (rules.matchFrom options listener reader memory).mapMemory image := by
  have hroot : Option.Rel (List.Forall₂ (Setting.mirroring image).node) (rules.nodes? rootName)
      (rules.nodes? rootName) := by
    rcases rules.nodes? rootName with _ | nodes
    · exact .none
    · exact .some (List.forall₂_same.2 fun _ _ => rfl)
  let start : Track σ := ⟨reader.withSkipLines (!rules.usesLineEnds), [], none, memory⟩
  have hpassages := (Setting.inStep_mirroring h rules options).matchRoot
    (show start.mapMemory image = start.mapMemory image from rfl) rfl hroot
    fun _ _ htrack => ⟨rfl, htrack⟩
  rcases hlast : rules.lastStep options listener reader memory with ⟨ending, t⟩
  rcases hlast' : rules.lastStep options mirror reader (image memory) with ⟨ending', u⟩
  rw [lastStep_eq_matchRoot] at hlast hlast'
  rw [hlast, hlast'] at hpassages
  obtain ⟨houtcome, rfl⟩ := Setting.outcome_of_mirroring hpassages options.requireEnd
  rw [← lastStep_eq_matchRoot] at hlast hlast'
  rw [matchFrom_of_lastStep hlast, matchFrom_of_lastStep hlast', houtcome]
  rfl

/-- A listener answers the same whether or not its events are written down. -/
theorem Listener.mirrors_recording (listener : Listener σ) :
    listener.Mirrors Prod.fst listener.recording := fun _ _ _ => rfl

/-- The outcome of a match is the same whether or not its events are written down. -/
theorem RuleTable.outcome_recording (rules : RuleTable) (options : Options)
    (listener : Listener σ) (reader : Reader) (memory : σ) (events : List (Context × Event)) :
    (rules.matchFrom options listener.recording reader (memory, events)).outcome =
      (rules.matchFrom options listener reader memory).outcome := by
  have hmirrors := matchFrom_of_mirrors listener.mirrors_recording rules options reader
    (memory, events)
  rw [show rules.matchFrom options listener reader memory = _ from hmirrors]
  rfl

namespace Trace

/-- The lines for some events. -/
def linesFor (events : List (Context × Event)) : List String :=
  events.map fun (context, event) => line context event

/-- A trace has a line for every event that is written down, and keeps the lines that it
    had before. -/
theorem mirrors_recording (earlier : Trace) :
    listener.Mirrors (fun memory => ⟨linesFor memory.2 ++ earlier.reversed⟩)
      Listener.acceptAll.recording := fun _ _ _ => rfl

end Trace

/-- A match that is traced comes out as one that nobody listens to, and puts the lines for
    its events behind those that the trace has already. -/
theorem RuleTable.matchFrom_trace (rules : RuleTable) (options : Options) (reader : Reader)
    (earlier : Trace) :
    let traced := rules.matchFrom options Trace.listener reader earlier
    let recorded := rules.matchFrom options Listener.acceptAll.recording reader ((), [])
    traced.outcome = (rules.matchFrom options .acceptAll reader ()).outcome ∧
      traced.memory.lines = earlier.lines ++ Trace.linesFor recorded.events := by
  intro traced recorded
  have htraced : traced = recorded.mapMemory _ :=
    matchFrom_of_mirrors (Trace.mirrors_recording earlier) rules options reader ((), [])
  rw [← rules.outcome_recording options .acceptAll reader () [], htraced]
  refine ⟨rfl, ?_⟩
  show (Trace.linesFor recorded.memory.2 ++ earlier.reversed).reverse = _
  rw [List.reverse_append, Trace.linesFor, ← List.map_reverse]
  rfl

end TokenGrammar
