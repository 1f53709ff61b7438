/-
  TokenGrammar.Proofs.Match.Undoing

  What a listener is told when a run puts its reader back.  A frame that fails puts it
  back to where it stood when the frame was opened, a branch that may be taken once and
  has been does so as well, and a terminal whose match the listener rejects puts it back
  to where the terminal was attempted (`Setting.undoing?`).  What has been told since then
  is undone.

  Going back is told if the reader moves.  So the listener learns that a token is undone,
  unless the token is the mark at the end of the input and the reader was there before;
  and it learns of nothing else.

  Main statement: `RuleTable.undone_tokens_are_told`.
-/

import TokenGrammar.Proofs.Match.Coherence
import TokenGrammar.Proofs.Match.Furthest
import TokenGrammar.Proofs.Match.History
import TokenGrammar.Proofs.Match.Ledger
import TokenGrammar.Proofs.Match.Simulation

namespace TokenGrammar

variable {σ : Type}

-- ============================================================================
-- Tokens that a reader passes
-- ============================================================================

namespace Reader

variable {reader behind : Reader} {matched : Matched}

theorem Takes.passed (h : reader.Takes matched behind) :
    matched.Passed reader.position behind.position := by
  have hstart := h.skips.le
  rcases h.ends with ⟨hcls, hposition, -⟩ | ⟨hcls, -, hbehind⟩
  · refine ⟨hstart, Nat.le_of_eq hposition.symm, fun hne => absurd hcls hne, fun hlt => .inr ?_⟩
    rw [← hposition]
    exact hlt
  · have hlt := hbehind.first_lt
    exact ⟨hstart, Nat.le_of_lt hlt, fun _ => hlt, fun _ => .inl hcls⟩

/-- At the end of the stream and behind it, a terminal finds the mark at the end and the
    reader stays. -/
theorem next_of_last_le (h : reader.stream.last ≤ reader.position)
    (hending : reader.stream.ending.cls = .ending) (adjacent : Bool) :
    reader.next adjacent = ⟨reader.position, reader.stream.ending, reader⟩ := by
  have hget : reader.stream.get reader.position = reader.stream.ending :=
    TokenStream.get_of_last_le h
  have hconsume : reader.consume = reader := if_neg (Nat.not_lt.2 h)
  cases adjacent with
  | true =>
      have hcls : (reader.peekAdjacent.cls == .beginning) = false := by
        rw [peekAdjacent, hget, hending]
        rfl
      simp only [next, hcls, Bool.false_eq_true, if_false, if_true, hconsume]
      rw [peekAdjacent, hget]
  | false =>
      have hsignificant := significantPosition_of_last_le h
      have hmove : reader.moveTo reader.position = reader := rfl
      simp only [next, Bool.false_eq_true, if_false, read, peek, hsignificant, hget, hmove,
        hconsume]

end Reader

/-- What is matched there is the mark at the end. -/
theorem Terminal.stays_of_matchAt {pattern : Terminal} {adjacent : Bool} {reader behind : Reader}
    {matched : Matched} (hlast : reader.stream.last ≤ reader.position)
    (hending : reader.stream.ending.cls = .ending)
    (h : pattern.matchAt adjacent reader = .ok (matched, behind)) :
    matched.cls = .ending ∧ matched.position = reader.position ∧ behind = reader := by
  have hnext := Reader.next_of_last_le hlast hending adjacent
  unfold matchAt at h
  split at h
  · unfold matchNumber at h
    simp only [hnext, hending] at h
    cases h
  · unfold matchString at h
    simp only [hnext, hending] at h
    cases h
  · unfold matchSingle at h
    simp only [hnext] at h
    split at h
    · next hholds =>
      cases h
      exact ⟨classOf_of_holds hholds hending, rfl, rfl⟩
    · cases h

/-- A terminal that matches passes the token that it matches. -/
theorem Terminal.passed_of_matchAt {pattern : Terminal} {adjacent : Bool}
    {reader behind : Reader} {matched : Matched} (htiles : reader.stream.Tiles)
    (h : pattern.matchAt adjacent reader = .ok (matched, behind)) :
    matched.Passed reader.position behind.position := by
  rcases Nat.le_total reader.position reader.stream.last with hle | hlast
  · exact (takes_of_matchAt htiles hle h).passed
  · obtain ⟨hcls, hposition, rfl⟩ := stays_of_matchAt hlast htiles.ending h
    exact ⟨Nat.le_of_eq hposition.symm, Nat.le_of_eq hposition, fun hne => absurd hcls hne,
      fun hlt => absurd hlt (Nat.lt_irrefl _)⟩

-- ============================================================================
-- Undoings of a run
-- ============================================================================

/-- The track that a step leaves. -/
def Step.track : Step σ → Track σ
  | .next state => state.track
  | .done _ track => track

/-- The moment in which a run is. -/
def Track.moment (track : Track (σ × List (Context × Event))) : Moment :=
  ⟨track.history.length, track.reader.checkpoint⟩

namespace Setting

/-- The moment at which the frame was opened that has `depth` frames below it: that of the
    last state that had no more frames than those, or the beginning of the run for the
    bottom frame.  The states come with the last one first. -/
def opening (start : Checkpoint) (past : List (State (σ × List (Context × Event))))
    (depth : Nat) : Moment :=
  match past.find? fun state => decide (state.stack.frames.length ≤ depth) with
  | some state => state.track.moment
  | none => ⟨0, start⟩

/-- A terminal puts the reader back to where it was attempted, if the listener rejects the
    match. -/
def terminalUndoing? (setting : Setting (σ × List (Context × Event))) (adjacent : Bool)
    (pattern : Terminal) (track : Track (σ × List (Context × Event))) : Option Undoing :=
  match pattern.matchAt adjacent track.reader with
  | .error _ => none
  | .ok (matched, reader) =>
    (setting.rejection? (.token matched) (track.withReader reader)).map fun _ =>
      ⟨track.moment, track.history.length + 1⟩

/-- How the step from a state puts the reader back, if it does. -/
def undoing? (setting : Setting (σ × List (Context × Event))) (start : Checkpoint)
    (past : List (State (σ × List (Context × Event))))
    (state : State (σ × List (Context × Event))) : Option Undoing :=
  let toEntry : Undoing :=
    ⟨opening start past state.stack.below.length, state.track.history.length⟩
  match state.phase with
  | .failing _ => some toEntry
  | .matching =>
    match state.stack.top.rest with
    | .terminal modifiers _ pattern :: _ =>
      setting.terminalUndoing? modifiers.adjacent pattern state.track
    | _ :: _ => none
    | [] =>
      match state.stack.top.origin with
      | .branch failed _ =>
        (branchFailure? state.stack failed.length state.track).map fun _ => toEntry
      | _ => none

/-- The undoings of a run in the order in which they happen, where its states come with
    the last one first. -/
def undoings (setting : Setting (σ × List (Context × Event))) (start : Checkpoint) :
    List (State (σ × List (Context × Event))) → List Undoing
  | [] => []
  | state :: past =>
    setting.undoings start past ++ (setting.undoing? start past state).toList

end Setting

/-- The undoings of a match. -/
def RuleTable.undoings (rules : RuleTable) (options : Options) (listener : Listener σ)
    (reader : Reader) (memory : σ) : List Undoing :=
  let setting := rules.setting options listener.recording
  setting.undoings (reader.withSkipLines (!rules.usesLineEnds)).checkpoint
    (setting.trail (rules.firstStep options listener.recording reader (memory, []))).reverse

-- ============================================================================
-- What a track keeps
-- ============================================================================

/-- Whether all frames, the top one first, began where the reader stood when they were
    opened. -/
def OpenedAt (opened : Nat → Moment) : List Frame → Prop
  | [] => True
  | frame :: below => frame.entry = (opened below.length).checkpoint ∧ OpenedAt opened below

theorem OpenedAt.congr {opened other : Nat → Moment} {frames : List Frame}
    (heq : ∀ depth, depth < frames.length → other depth = opened depth)
    (h : OpenedAt opened frames) : OpenedAt other frames := by
  induction frames with
  | nil => trivial
  | cons frame below ih =>
      refine ⟨?_, ih (fun depth hlt => heq depth (Nat.lt_succ_of_lt hlt)) h.2⟩
      rw [heq below.length (Nat.lt_succ_self _)]
      exact h.1

/-- The ledger of a track that has written down its events, where frames are open. -/
structure Track.Keeps (track : Track (σ × List (Context × Event))) (opened : Nat → Moment)
    (undoings : List Undoing) (frames : List Frame) : Prop where
  ledger : Ledger opened undoings track.history track.reader.position frames.length
  openedAt : OpenedAt opened frames

variable {setting : Setting (σ × List (Context × Event))}
  {track told : Track (σ × List (Context × Event))} {opened : Nat → Moment}
  {undoings after : List Undoing} {frame : Frame} {frames : List Frame}

namespace Track.Keeps

theorem congr (h : track.Keeps opened undoings frames) {other : Nat → Moment}
    (heq : ∀ depth, depth < frames.length → other depth = opened depth) :
    track.Keeps other undoings frames :=
  ⟨h.ledger.congr heq, h.openedAt.congr heq⟩

/-- Another frame may take the place of the last one, if it began there. -/
theorem replace (h : track.Keeps opened undoings (frame :: frames)) {other : Frame}
    (hentry : other.entry = frame.entry) : track.Keeps opened undoings (other :: frames) :=
  ⟨h.ledger, hentry.trans h.openedAt.1, h.openedAt.2⟩

/-- A frame is opened where the reader stands. -/
theorem push (h : track.Keeps opened undoings frames)
    (hopened : opened frames.length = track.moment)
    (hentry : frame.entry = track.reader.checkpoint) :
    track.Keeps opened undoings (frame :: frames) := by
  refine ⟨h.ledger.push ?_ ?_, ?_, h.openedAt⟩
  · rw [hopened]
    rfl
  · rw [hopened]
    rfl
  · rw [hopened, hentry]
    rfl

theorem pop (h : track.Keeps opened undoings (frame :: frames)) :
    track.Keeps opened undoings frames :=
  ⟨h.ledger.pop, h.openedAt.2⟩

theorem tell (h : track.Keeps opened undoings frames) {event : Event} {context : Context}
    (hreader : told.reader = track.reader)
    (hhistory : told.history = track.history ++ [(context, event)])
    (htoken : ∀ matched, event ≠ .token matched) (hrewind : ∀ place, event ≠ .rewind place) :
    told.Keeps opened undoings frames := by
  refine ⟨?_, h.openedAt⟩
  rw [hreader, hhistory]
  exact h.ledger.tell htoken hrewind context

theorem tellToken (h : track.Keeps opened undoings frames) {matched : Matched}
    {context : Context} {behind : Reader}
    (hpassed : matched.Passed track.reader.position behind.position)
    (hreader : told.reader = behind)
    (hhistory : told.history = track.history ++ [(context, .token matched)]) :
    told.Keeps opened undoings frames := by
  refine ⟨?_, h.openedAt⟩
  rw [hreader, hhistory]
  exact h.ledger.tellToken hpassed context

/-- The reader is put back to where the last frame began. -/
theorem rewind (hrecords : setting.Records) (h : track.Keeps opened undoings (frame :: frames)) :
    (track.rewind setting.listener frame.entry).2.Keeps opened
      (undoings ++ [⟨opened frames.length, track.history.length⟩]) (frame :: frames) := by
  refine ⟨?_, h.openedAt⟩
  rw [Track.reader_rewind, h.openedAt.1]
  rcases Nat.lt_or_ge (opened frames.length).checkpoint.position track.reader.position
    with hlt | hle
  · rw [Setting.rewind_of_lt hlt, Setting.history_emit hrecords]
    exact h.ledger.putBack (.rewind hlt _)
  · rw [Setting.rewind_of_le hle]
    have hstays := h.ledger.putBack (.stay hle)
    rw [List.append_nil] at hstays
    exact hstays

end Track.Keeps

-- ============================================================================
-- What a step keeps
-- ============================================================================

/-- Whether a step keeps the ledger and leaves the reader where it may stand. -/
def Step.Keeps (opened : Nat → Moment) (undoings : List Undoing) (stands : Reader → Prop) :
    Step (σ × List (Context × Event)) → Prop
  | .next state =>
    state.track.Keeps opened undoings state.stack.frames ∧ stands state.track.reader
  | .done _ track => Settled track.history undoings ∧ stands track.reader

variable {stands : Reader → Prop}

namespace Step

theorem keeps_abort (h : track.Keeps opened undoings frames) (hstands : stands track.reader)
    (abort : Abort) : (Step.abort abort track).Keeps opened undoings stands :=
  ⟨h.ledger.settled, hstands⟩

theorem keeps_rewindThen (hrecords : setting.Records)
    {goOn : Track (σ × List (Context × Event)) → Step (σ × List (Context × Event))}
    (h : track.Keeps opened undoings (frame :: frames))
    (hafter : after = undoings ++ [⟨opened frames.length, track.history.length⟩])
    (hstands : stands (track.reader.seek frame.entry))
    (hgoOn : ∀ back : Track (σ × List (Context × Event)),
      back.Keeps opened after (frame :: frames) → stands back.reader →
      (goOn back).Keeps opened after stands) :
    (setting.rewindThen frame.entry track goOn).Keeps opened after stands := by
  have hback := h.rewind hrecords
  have hreader := Track.reader_rewind setting.listener frame.entry track
  rw [← hafter] at hback
  rw [← hreader] at hstands
  unfold Setting.rewindThen
  rcases hrewind : track.rewind setting.listener frame.entry with ⟨_ | refusal, back⟩
  all_goals rw [hrewind] at hback hstands
  · exact hgoOn back hback hstands
  · exact keeps_abort hback hstands _

/-- An event is told; how a run goes on depends on whether it is rejected. -/
theorem keeps_emitThen (hrecords : setting.Records) {event : Event}
    {rejected : Failure → Track (σ × List (Context × Event)) → Step (σ × List (Context × Event))}
    {accepted : Track (σ × List (Context × Event)) → Step (σ × List (Context × Event))}
    (hrejected : ∀ (refusal : Refusal) (told : Track (σ × List (Context × Event))),
      setting.rejection? event track = some refusal → told.reader = track.reader →
      told.history = track.history ++ [(track.context, event)] →
      (rejected (.rejected refusal) told).Keeps opened after stands)
    (haccepted : ∀ told : Track (σ × List (Context × Event)),
      setting.rejection? event track = none → told.reader = track.reader →
      told.history = track.history ++ [(track.context, event)] →
      (accepted told).Keeps opened after stands ∧
        ∀ refusal, (Step.abort (.stopped refusal) told).Keeps opened after stands) :
    (setting.emitThen event track rejected accepted).Keeps opened after stands := by
  have hreader := Track.reader_emit setting.listener event track
  have hhistory := Setting.history_emit hrecords event track
  unfold Setting.rejection? at hrejected haccepted
  unfold Setting.emitThen
  rcases hemit : track.emit setting.listener event with ⟨_ | refusal | refusal, told⟩
  all_goals rw [hemit] at hrejected haccepted hreader hhistory
  · exact (haccepted told rfl hreader hhistory).1
  · exact hrejected refusal told rfl hreader hhistory
  · exact (haccepted told rfl hreader hhistory).2 refusal

end Step

-- ============================================================================
-- Frames
-- ============================================================================

namespace Stack

variable {stack : Stack} {node : Node}

/-- The last frame is dropped. -/
theorem keeps_parent {parent : Stack} (h : track.Keeps opened undoings stack.frames)
    (hpop : stack.pop? = some (parent, node)) : track.Keeps opened undoings parent.frames := by
  rw [← frames_of_pop? hpop]
  exact h.pop

theorem keeps_afterMatch (h : track.Keeps opened undoings stack.frames)
    (hstands : stands track.reader) (node : Node) :
    (stack.afterMatch node track).Keeps opened undoings stands := by
  unfold afterMatch
  split
  · split
    · exact ⟨h.replace rfl, hstands⟩
    · exact Step.keeps_abort h hstands _
  · exact ⟨h.replace rfl, hstands⟩

theorem keeps_afterFailure (h : track.Keeps opened undoings stack.frames)
    (hstands : stands track.reader) (node : Node) (failure : Failure) :
    (stack.afterFailure node failure track).Keeps opened undoings stands := by
  unfold afterFailure
  split
  · exact ⟨h.replace rfl, hstands⟩
  · split
    · exact Step.keeps_abort h hstands _
    · exact ⟨h, hstands⟩

theorem keeps_giveUp (h : track.Keeps opened undoings stack.frames)
    (hstands : stands track.reader) (failure : Failure) :
    (stack.giveUp failure track).Keeps opened undoings stands := by
  unfold giveUp
  split
  · exact Step.keeps_abort h hstands _
  · next parent node hpop => exact keeps_afterFailure (keeps_parent h hpop) hstands node failure

end Stack

-- ============================================================================
-- Attempts
-- ============================================================================

namespace Setting

variable {stack : Stack} {node : Node}

theorem keeps_attemptTerminal (hrecords : setting.Records) (htiles : track.reader.stream.Tiles)
    (h : track.Keeps opened undoings stack.frames)
    (hopened : opened stack.frames.length = track.moment)
    (hattempt : stack.top.attempt = track.reader.checkpoint) {pattern : Terminal}
    {undoing? : Option Undoing}
    (hundoing : undoing? = setting.terminalUndoing? node.modifiers.adjacent pattern track)
    (hback : ∀ undoing, undoing? = some undoing →
      stands (track.reader.seek undoing.target))
    (honward : undoing? = none → ∀ reader : Reader,
      track.reader.position ≤ reader.position → stands reader) :
    (setting.attemptTerminal stack node pattern track).Keeps opened
      (undoings ++ undoing?.toList) stands := by
  unfold terminalUndoing? at hundoing
  unfold attemptTerminal
  rcases hmatch : pattern.matchAt node.modifiers.adjacent track.reader
    with miss | ⟨matched, reader⟩
  all_goals rw [hmatch] at hundoing
  · subst hundoing
    rw [Option.toList_none, List.append_nil]
    have hmissed : (track.offer miss.position (.mismatch miss.mismatch)).Keeps opened undoings
        stack.frames := ⟨h.ledger, h.openedAt⟩
    exact Stack.keeps_afterFailure hmissed (honward rfl track.reader (Nat.le_refl _)) node _
  · have hpassed := Terminal.passed_of_matchAt htiles hmatch
    dsimp only at hundoing ⊢
    refine Step.keeps_emitThen hrecords ?_ ?_
    · intro refusal told hrejection hreader hhistory
      rw [hrejection] at hundoing
      subst hundoing
      -- Within the step the attempt is like a frame that is opened and fails.
      let attempt : Frame := { stack.top with entry := stack.top.attempt }
      have hattempting : track.Keeps opened undoings (attempt :: stack.frames) :=
        h.push hopened hattempt
      have htold : (told.offer matched.position (.rejected refusal)).Keeps opened undoings
          (attempt :: stack.frames) := by
        have hkeeps := hattempting.tellToken hpassed hreader hhistory
        exact ⟨hkeeps.ledger, hkeeps.openedAt⟩
      have hseek : told.reader.seek attempt.entry = track.reader.seek track.moment.checkpoint := by
        show told.reader.seek stack.top.attempt = _
        rw [hreader, hattempt]
        show reader.seek _ = _
        rw [Reader.seek, Terminal.stream_of_matchAt hmatch]
        rfl
      have hstands : stands (told.reader.seek attempt.entry) := by
        rw [hseek]
        exact hback _ rfl
      have hlength : told.history.length = track.history.length + 1 := by
        rw [hhistory, List.length_append]
        rfl
      have hafter : undoings ++
          (Option.map (fun _ => (⟨track.moment, track.history.length + 1⟩ : Undoing))
            (some refusal)).toList =
          undoings ++ [⟨opened stack.frames.length, told.history.length⟩] := by
        rw [hopened, hlength]
        rfl
      exact Step.keeps_rewindThen hrecords htold hafter hstands fun back hkeeps hstands =>
        Stack.keeps_afterFailure hkeeps.pop hstands _ _
    · intro told hrejection hreader hhistory
      rw [hrejection] at hundoing
      subst hundoing
      have htold := h.tellToken hpassed hreader hhistory
      have hstands : stands told.reader := by
        refine honward rfl told.reader ?_
        rw [hreader]
        exact Nat.le_trans hpassed.start_le hpassed.le_stop
      rw [Option.map_none, Option.toList_none, List.append_nil]
      exact ⟨Stack.keeps_afterMatch htold hstands node,
        fun refusal => Step.keeps_abort htold hstands _⟩

/-- A frame for the element at the cursor begins where the element is attempted. -/
theorem keeps_push (h : track.Keeps opened undoings stack.frames)
    (hopened : opened stack.frames.length = track.moment)
    (hattempt : stack.top.attempt = track.reader.checkpoint) {pushed : Stack} {origin : Origin}
    {nodes : List Node}
    (hpush : stack.push? (.start origin nodes stack.top.attempt) = some pushed) :
    track.Keeps opened undoings pushed.frames := by
  rw [Stack.frames_of_push? hpush]
  exact h.push hopened hattempt

theorem keeps_attemptRule (hrecords : setting.Records)
    (h : track.Keeps opened undoings stack.frames) (hstands : stands track.reader)
    (hopened : opened stack.frames.length = track.moment)
    (hattempt : stack.top.attempt = track.reader.checkpoint) (name : String) :
    (setting.attemptRule stack name track).Keeps opened undoings stands := by
  have htoken : ∀ matched, Event.enter name ≠ .token matched := fun _ => nofun
  have hrewind : ∀ place, Event.enter name ≠ .rewind place := fun _ => nofun
  unfold attemptRule
  split
  · exact Step.keeps_abort h hstands _
  · next nodes _ =>
    split
    · exact Step.keeps_abort h hstands _
    · next pushed hpush =>
      have hpushed := keeps_push h hopened hattempt hpush
      have hopens : (track.openRule name).Keeps opened undoings pushed.frames :=
        ⟨hpushed.ledger, hpushed.openedAt⟩
      refine Step.keeps_emitThen hrecords ?_ ?_
      · intro refusal told _ hreader hhistory
        have htold := hopens.tell hreader hhistory htoken hrewind
        exact ⟨⟨htold.ledger, htold.openedAt⟩, hreader ▸ hstands⟩
      · intro told _ hreader hhistory
        have htold := hopens.tell hreader hhistory htoken hrewind
        have hstays : stands told.reader := hreader ▸ hstands
        exact ⟨⟨htold, hstays⟩, fun refusal => Step.keeps_abort htold hstays _⟩

theorem keeps_attemptAlternation (h : track.Keeps opened undoings stack.frames)
    (hstands : stands track.reader) (hopened : opened stack.frames.length = track.moment)
    (hattempt : stack.top.attempt = track.reader.checkpoint) (branches : List (List Node)) :
    (setting.attemptAlternation stack node branches track).Keeps opened undoings stands := by
  unfold attemptAlternation
  split
  · exact Stack.keeps_afterFailure h hstands _ _
  · split
    · exact Step.keeps_abort h hstands _
    · next pushed hpush => exact ⟨keeps_push h hopened hattempt hpush, hstands⟩

-- ============================================================================
-- Ends of frames
-- ============================================================================

theorem keeps_closeRule (h : track.Keeps opened undoings stack.frames)
    (hstands : stands track.reader) : (closeRule stack track).Keeps opened undoings stands := by
  have hclosed : track.closeRule.Keeps opened undoings stack.frames := ⟨h.ledger, h.openedAt⟩
  unfold closeRule
  split
  · exact ⟨h.ledger.settled, hstands⟩
  · split
    · exact Step.keeps_abort hclosed hstands _
    · next parent node hpop =>
      exact Stack.keeps_afterMatch (Stack.keeps_parent hclosed hpop) hstands node

theorem keeps_finishRule (hrecords : setting.Records)
    (h : track.Keeps opened undoings stack.frames) (hstands : stands track.reader)
    (name : String) : (setting.finishRule stack name track).Keeps opened undoings stands := by
  have htoken : ∀ matched, Event.leave name ≠ .token matched := fun _ => nofun
  have hrewind : ∀ place, Event.leave name ≠ .rewind place := fun _ => nofun
  unfold finishRule
  refine Step.keeps_emitThen hrecords ?_ ?_
  · intro refusal told _ hreader hhistory
    have htold := h.tell hreader hhistory htoken hrewind
    exact ⟨⟨htold.ledger, htold.openedAt⟩, hreader ▸ hstands⟩
  · intro told _ hreader hhistory
    have htold := h.tell hreader hhistory htoken hrewind
    have hstays : stands told.reader := hreader ▸ hstands
    exact ⟨keeps_closeRule htold hstays, fun refusal => Step.keeps_abort htold hstays _⟩

theorem keeps_finishBranch (hrecords : setting.Records)
    (h : track.Keeps opened undoings stack.frames) {index : Nat} {undoing? : Option Undoing}
    (hundoing : undoing? = (branchFailure? stack index track).map fun _ =>
      ⟨opened stack.below.length, track.history.length⟩)
    (hback : ∀ undoing, undoing? = some undoing →
      stands (track.reader.seek stack.top.entry))
    (hstays : undoing? = none → stands track.reader) :
    (setting.finishBranch stack index track).Keeps opened (undoings ++ undoing?.toList)
      stands := by
  unfold branchFailure? at hundoing
  unfold finishBranch
  rcases hpop : stack.pop? with _ | ⟨parent, node⟩
  all_goals rw [hpop] at hundoing
  · subst hundoing
    rw [Option.map_none, Option.toList_none, List.append_nil]
    exact Step.keeps_abort h (hstays rfl) _
  · have hpopped := Stack.keeps_parent h hpop
    dsimp only at hundoing ⊢
    by_cases honce : node.isOnceEach = true
    · rw [if_pos honce]
      rw [honce, Bool.true_and] at hundoing
      by_cases htaken : parent.top.taken.contains index = true
      · rw [if_pos htaken] at hundoing ⊢
        subst hundoing
        refine Step.keeps_rewindThen hrecords h rfl (hback _ rfl) fun back hkeeps hstands => ?_
        have hparent := Stack.keeps_parent hkeeps hpop
        have hoffered : (back.offerHere (.alreadySet index)).Keeps opened _ parent.frames :=
          ⟨hparent.ledger, hparent.openedAt⟩
        exact Stack.keeps_afterFailure hoffered hstands node _
      · rw [if_neg htaken] at hundoing ⊢
        subst hundoing
        rw [Option.map_none, Option.toList_none, List.append_nil]
        have hnoted : track.Keeps opened undoings
            (parent.withTop (parent.top.take index)).frames := hpopped.replace rfl
        exact Stack.keeps_afterMatch hnoted (hstays rfl) node
    · rw [if_neg honce]
      rw [Bool.eq_false_iff.2 honce, Bool.false_and, if_neg Bool.false_ne_true] at hundoing
      subst hundoing
      rw [Option.map_none, Option.toList_none, List.append_nil]
      exact Stack.keeps_afterMatch hpopped (hstays rfl) node

theorem keeps_fail (hrecords : setting.Records) (h : track.Keeps opened undoings stack.frames)
    (hstands : stands (track.reader.seek stack.top.entry)) (failure : Failure) :
    (setting.fail stack failure track).Keeps opened
      (undoings ++ [⟨opened stack.below.length, track.history.length⟩]) stands := by
  unfold fail
  dsimp only
  split
  · exact Step.keeps_rewindThen hrecords h rfl hstands fun back hkeeps hstands =>
      ⟨hkeeps.ledger.settled, hstands⟩
  · refine Step.keeps_rewindThen hrecords h rfl hstands fun back hkeeps hstands => ?_
    have hclosed : back.closeRule.Keeps opened _ stack.frames := ⟨hkeeps.ledger, hkeeps.openedAt⟩
    exact Stack.keeps_giveUp hclosed hstands failure
  · exact Step.keeps_rewindThen hrecords h rfl hstands fun back hkeeps hstands =>
      Stack.keeps_giveUp hkeeps hstands _
  · exact Step.keeps_rewindThen hrecords h rfl hstands fun back hkeeps hstands =>
      ⟨hkeeps.replace rfl, hstands⟩

end Setting

-- ============================================================================
-- Steps
-- ============================================================================

namespace Setting

variable {start : Checkpoint} {state : State (σ × List (Context × Event))}
  {past : List (State (σ × List (Context × Event)))}

/-- Whether a reader is where the step from a state leaves it: it is put back if the step
    undoes anything, and does not go back otherwise. -/
def Puts (setting : Setting (σ × List (Context × Event))) (start : Checkpoint)
    (past : List (State (σ × List (Context × Event))))
    (state : State (σ × List (Context × Event))) (reader : Reader) : Prop :=
  match setting.undoing? start past state with
  | some undoing => reader = state.track.reader.seek undoing.target
  | none => state.track.reader.position ≤ reader.position

theorem opening_cons_of_lt {depth : Nat} (h : depth < state.stack.frames.length) :
    opening start (state :: past) depth = opening start past depth := by
  unfold opening
  rw [List.find?_cons_of_neg]
  rw [decide_eq_true_eq]
  exact Nat.not_le.2 h

theorem opening_cons_self :
    opening start (state :: past) state.stack.frames.length = state.track.moment := by
  unfold opening
  rw [List.find?_cons_of_pos]
  exact decide_eq_true (Nat.le_refl _)

/-- Every step keeps the ledger and puts the reader where it should. -/
theorem keeps_step (hrecords : setting.Records) (htiles : state.stream.Tiles)
    (h : state.track.Keeps (opening start past) (setting.undoings start past)
      state.stack.frames) :
    (setting.step state).Keeps (opening start (state :: past))
      (setting.undoings start (state :: past)) (setting.Puts start past state) := by
  have hkeeps := h.congr fun depth hlt => opening_cons_of_lt hlt
  have hopened := @opening_cons_self σ start state past
  have hbelow : opening start past state.stack.below.length =
      opening start (state :: past) state.stack.below.length :=
    (opening_cons_of_lt (Nat.lt_succ_self _)).symm
  have hentry := hkeeps.openedAt.1
  have hback : ∀ undoing, setting.undoing? start past state = some undoing →
      setting.Puts start past state (state.track.reader.seek undoing.target) := by
    intro undoing hundoing
    unfold Puts
    rw [hundoing]
  have honward : setting.undoing? start past state = none → ∀ reader : Reader,
      state.track.reader.position ≤ reader.position → setting.Puts start past state reader := by
    intro hundoing reader hle
    unfold Puts
    rw [hundoing]
    exact hle
  rw [undoings]
  generalize setting.Puts start past state = stands at hback honward ⊢
  generalize hundoing : setting.undoing? start past state = undone? at hback honward ⊢
  unfold undoing? at hundoing
  rw [hbelow] at hundoing
  obtain ⟨stack, phase, track⟩ := state
  unfold step
  cases phase with
  | failing failure =>
      subst hundoing
      refine keeps_fail hrecords hkeeps ?_ failure
      rw [hentry]
      exact hback _ rfl
  | matching =>
      dsimp only at hundoing hkeeps hopened hentry hback honward ⊢
      rcases hrest : stack.top.rest with _ | ⟨node, rest⟩
      all_goals rw [hrest] at hundoing
      · unfold finish
        rcases horigin : stack.top.origin with _ | name | ⟨failed, later⟩
        all_goals rw [horigin] at hundoing
        · subst hundoing
          rw [Option.toList_none, List.append_nil]
          exact keeps_finishRule hrecords hkeeps (honward rfl _ (Nat.le_refl _)) rootName
        · subst hundoing
          rw [Option.toList_none, List.append_nil]
          exact keeps_finishRule hrecords hkeeps (honward rfl _ (Nat.le_refl _)) name
        · refine keeps_finishBranch hrecords hkeeps hundoing.symm ?_
            (fun hnone => honward hnone _ (Nat.le_refl _))
          intro undoing hsome
          obtain ⟨reach, -, rfl⟩ := Option.map_eq_some_iff.1 (hundoing.trans hsome)
          rw [hentry]
          exact hback _ hsome
      · let attempting := stack.withTop { stack.top with attempt := track.reader.checkpoint }
        have hattempting : track.Keeps (opening start (⟨stack, .matching, track⟩ :: past))
          (setting.undoings start past) attempting.frames := hkeeps.replace rfl
        cases node with
        | terminal modifiers span pattern =>
            have hstep := @keeps_attemptTerminal _ _ _ _ _ stands attempting
              (.terminal modifiers span pattern) hrecords htiles hattempting hopened rfl pattern
              undone? hundoing.symm hback honward
            exact hstep
        | ref modifiers span name =>
            subst hundoing
            rw [Option.toList_none, List.append_nil]
            exact keeps_attemptRule hrecords hattempting (honward rfl _ (Nat.le_refl _)) hopened
              rfl name
        | alternation modifiers span branches onceEach =>
            subst hundoing
            rw [Option.toList_none, List.append_nil]
            exact keeps_attemptAlternation hattempting (honward rfl _ (Nat.le_refl _)) hopened rfl
              branches

/-- A run begins with an empty ledger, and tells that the rule `ROOT` is entered. -/
theorem keeps_start (hrecords : setting.Records) (reader : Reader) (memory : σ) :
    (setting.start reader (memory, [])).Keeps (@opening σ reader.checkpoint []) []
      fun _ => True := by
  have htoken : ∀ matched, Event.enter rootName ≠ .token matched := fun _ => nofun
  have hrewind : ∀ place, Event.enter rootName ≠ .rewind place := fun _ => nofun
  unfold start
  dsimp only
  split
  · exact ⟨settled_nil, trivial⟩
  · exact ⟨settled_nil, trivial⟩
  · next nodes room _ _ =>
    let track : Track (σ × List (Context × Event)) := ⟨reader, [], none, (memory, [])⟩
    have hbegins : (track.openRule rootName).Keeps (@opening σ reader.checkpoint []) [] [] :=
      ⟨⟨settled_nil, trivial⟩, trivial⟩
    have hroot : (track.openRule rootName).Keeps (@opening σ reader.checkpoint []) []
        [.start .root nodes reader.checkpoint] := hbegins.push rfl rfl
    refine Step.keeps_emitThen hrecords ?_ ?_
    · intro refusal told _ hreader hhistory
      exact ⟨hroot.tell hreader hhistory htoken hrewind, trivial⟩
    · intro told _ hreader hhistory
      have htold := hroot.tell hreader hhistory htoken hrewind
      exact ⟨⟨htold, trivial⟩, fun refusal => Step.keeps_abort htold trivial _⟩

-- ============================================================================
-- Runs
-- ============================================================================

variable {reader : Reader} {memory : σ}

/-- In every state of a run the ledger is kept. -/
theorem Arrives.keeps_ledger (hrecords : setting.Records) (htiles : reader.stream.Tiles)
    (h : setting.Arrives (setting.start reader (memory, [])) past state) :
    state.stream = reader.stream ∧
      state.track.Keeps (opening reader.checkpoint past)
        (setting.undoings reader.checkpoint past) state.stack.frames := by
  induction h with
  | begin hbegin =>
      have hkeeps := keeps_start hrecords reader memory
      rw [hbegin] at hkeeps
      exact ⟨stream_of_start hbegin, hkeeps.1⟩
  | @step past state after _ hstep ih =>
      obtain ⟨hstream, hledger⟩ := ih
      have hdescends := setting.descends_step state
      have hkeeps := keeps_step hrecords (hstream ▸ htiles) hledger
      rw [hstep] at hdescends hkeeps
      exact ⟨hdescends.1.trans hstream, hkeeps.1⟩

/-- Every step of a run puts the reader where it should. -/
theorem Arrives.puts (hrecords : setting.Records) (htiles : reader.stream.Tiles)
    (h : setting.Arrives (setting.start reader (memory, [])) past state) :
    setting.Puts reader.checkpoint past state (setting.step state).track.reader := by
  obtain ⟨hstream, hledger⟩ := h.keeps_ledger hrecords htiles
  have hkeeps := keeps_step hrecords (hstream ▸ htiles) hledger
  rcases hstep : setting.step state with after | ⟨ending, track⟩
  all_goals
    rw [hstep] at hkeeps
    exact hkeeps.2

/-- At the end of a run its account is settled. -/
theorem settled_of_complete (hrecords : setting.Records) (htiles : reader.stream.Tiles)
    {ending : Ending} {track : Track (σ × List (Context × Event))}
    (h : setting.complete (setting.start reader (memory, [])) = (ending, track)) :
    Settled track.history
      (setting.undoings reader.checkpoint
        (setting.trail (setting.start reader (memory, []))).reverse) := by
  rcases exists_arrives_last h with hdone | ⟨past, last, harrives, hstep, htrail⟩
  · have hkeeps := keeps_start hrecords reader memory
    rw [hdone] at hkeeps ⊢
    exact hkeeps.1
  · obtain ⟨hstream, hledger⟩ := harrives.keeps_ledger hrecords htiles
    have hkeeps := keeps_step hrecords (hstream ▸ htiles) hledger
    rw [hstep] at hkeeps
    rw [htrail, List.reverse_reverse]
    exact hkeeps.1

end Setting

namespace RuleTable

/-- The undoings of a match of so many states at most. -/
theorem undoings_of_trailWithin {rules : RuleTable} {options : Options} {listener : Listener σ}
    {reader : Reader} {memory : σ} {undoings : List Undoing} (steps : Nat)
    (h : ((rules.setting options listener.recording).trailWithin steps
        (rules.firstStep options listener.recording reader (memory, []))).map (fun states =>
          (rules.setting options listener.recording).undoings
            (reader.withSkipLines (!rules.usesLineEnds)).checkpoint states.reverse) =
      some undoings) : rules.undoings options listener reader memory = undoings :=
  Setting.eq_of_map_trailWithin _ steps h

/-- What a match has told is what its run has. -/
theorem events_eq_history (rules : RuleTable) (options : Options) (listener : Listener σ)
    (reader : Reader) (memory : σ) :
    (rules.matchFrom options listener.recording reader (memory, [])).events =
      (rules.lastStep options listener.recording reader (memory, [])).2.history := by
  rcases hlast : rules.lastStep options listener.recording reader (memory, []) with
    ⟨ending, track⟩
  rw [matchFrom_of_lastStep hlast]
  rfl

/-- Whatever the rules, the options, the listener, the text and the start are, the listener
    is told what is undone.  A step puts the reader back to where it stood at the moment of
    its undoing, and without one the reader does not go back (`Setting.Puts`).  If an
    undoing undoes a token for the first time, the reader goes back to or in front of the
    token, and the next event says so, unless the token is the mark at the end and the
    reader was there at the moment of the undoing; and whenever an event says that the
    reader goes back, an undoing undoes such a token for the first time (`Settled`). -/
theorem undone_tokens_are_told (rules : RuleTable) (options : Options) (listener : Listener σ)
    (memory : σ) (lexer : Lexer) (text : String) (start : Nat) (skipLines : Bool) :
    let reader : Reader := ⟨lexer.tokenize text, start, skipLines⟩
    let setting := rules.setting options listener.recording
    let result := rules.matchFrom options listener.recording reader (memory, [])
    (∀ past state,
      setting.Arrives (rules.firstStep options listener.recording reader (memory, [])) past
          state →
        setting.Puts ⟨start, !rules.usesLineEnds⟩ past state
          (setting.step state).track.reader) ∧
    Settled result.events (rules.undoings options listener reader memory) := by
  intro reader setting result
  have hrecords : setting.Records := ⟨listener, rfl⟩
  have htiles : (lexer.tokenize text).Tiles := lexer.tiles_tokenize text
  refine ⟨fun past state harrives => Setting.Arrives.puts hrecords htiles harrives, ?_⟩
  rw [show result.events = _ from rules.events_eq_history options listener reader memory]
  exact Setting.settled_of_complete hrecords htiles rfl

/-- A word is undone when the branch that took it is abandoned, and that is told. -/
theorem undone_word_is_told :
    ∃ undoing later,
      numberedOrKeyword.undoings .default .acceptAll ⟨Lexer.base.tokenize "a x", 0, true⟩ () =
        undoing :: later ∧
      TellsAt (numberedOrKeyword.matchFrom .default Listener.acceptAll.recording
        ⟨Lexer.base.tokenize "a x", 0, true⟩ ((), [])).events 1
          (.token ⟨.identifier, "a", ⟨0, 1⟩, 1⟩) ∧
      undoing.Covers 1 ∧
      TellsAt (numberedOrKeyword.matchFrom .default Listener.acceptAll.recording
        ⟨Lexer.base.tokenize "a x", 0, true⟩ ((), [])).events 2 (.rewind 0) := by
  have hundoings : numberedOrKeyword.undoings .default .acceptAll
      ⟨Lexer.base.tokenize "a x", 0, true⟩ () =
        [⟨⟨1, ⟨0, true⟩⟩, 2⟩, ⟨⟨1, ⟨0, true⟩⟩, 3⟩, ⟨⟨0, ⟨0, true⟩⟩, 3⟩] :=
    undoings_of_trailWithin 20 (by decide +kernel)
  have hevent : (numberedOrKeyword.matchFrom .default Listener.acceptAll.recording
      ⟨Lexer.base.tokenize "a x", 0, true⟩ ((), [])).events[1]? =
        some (⟨[rootName], 2⟩, .token ⟨.identifier, "a", ⟨0, 1⟩, 1⟩) :=
    eq_of_map_matchWithin (fun result => result.events[1]?) 20 (by decide +kernel)
  have hcovers : Undoing.Covers ⟨⟨1, ⟨0, true⟩⟩, 2⟩ 1 := ⟨Nat.le_refl 1, Nat.lt_succ_self 1⟩
  have hlives : Lives (numberedOrKeyword.matchFrom .default Listener.acceptAll.recording
      ⟨Lexer.base.tokenize "a x", 0, true⟩ ((), [])).events [] 1
        ⟨.identifier, "a", ⟨0, 1⟩, 1⟩ := ⟨⟨_, hevent⟩, List.forall_mem_nil _⟩
  have hsettled := (numberedOrKeyword.undone_tokens_are_told .default .acceptAll () .base
    "a x" 0 true).2
  have htold := (hsettled.told [] _ _ hundoings 1 _ hlives hcovers).2 (.inl (by decide))
  exact ⟨_, _, hundoings, ⟨_, hevent⟩, hcovers, htold⟩

/-- The rule `ROOT := ID [ EOF KEYWORD | EOF ]`. -/
def wordAndEnd : RuleTable where
  rules :=
    [⟨rootName,
      [.terminal .plain .zero (.ofCategory .identifier),
        .alternation .plain .zero
          [[.terminal .plain .zero (.ofCategory .endOfInput),
            .terminal .plain .zero (.ofCategory .keyword)],
           [.terminal .plain .zero (.ofCategory .endOfInput)]] false], .zero⟩]

/-- The mark at the end is undone when the branch that took it is abandoned, but that is
    not told: it is matched again at once. -/
theorem undone_end_is_not_told :
    ∃ (undoing : Undoing) (ending : Matched),
      wordAndEnd.undoings .default .acceptAll ⟨Lexer.base.tokenize "a", 0, true⟩ () =
        [undoing] ∧
      undoing.Covers 2 ∧ undoing.upTo = 3 ∧
      TellsAt (wordAndEnd.matchFrom .default Listener.acceptAll.recording
        ⟨Lexer.base.tokenize "a", 0, true⟩ ((), [])).events 2 (.token ending) ∧
      TellsAt (wordAndEnd.matchFrom .default Listener.acceptAll.recording
        ⟨Lexer.base.tokenize "a", 0, true⟩ ((), [])).events 3 (.token ending) := by
  have hundoings : wordAndEnd.undoings .default .acceptAll
      ⟨Lexer.base.tokenize "a", 0, true⟩ () = [⟨⟨2, ⟨2, true⟩⟩, 3⟩] :=
    undoings_of_trailWithin 20 (by decide +kernel)
  have htaken : (wordAndEnd.matchFrom .default Listener.acceptAll.recording
      ⟨Lexer.base.tokenize "a", 0, true⟩ ((), [])).events[2]? =
        some (⟨[rootName], 2⟩, .token ⟨.ending, "", ⟨1, 1⟩, 2⟩) :=
    eq_of_map_matchWithin (fun result => result.events[2]?) 20 (by decide +kernel)
  have hagain : (wordAndEnd.matchFrom .default Listener.acceptAll.recording
      ⟨Lexer.base.tokenize "a", 0, true⟩ ((), [])).events[3]? =
        some (⟨[rootName], 2⟩, .token ⟨.ending, "", ⟨1, 1⟩, 2⟩) :=
    eq_of_map_matchWithin (fun result => result.events[3]?) 20 (by decide +kernel)
  exact ⟨_, _, hundoings, ⟨Nat.le_refl 2, Nat.lt_succ_self 2⟩, rfl, ⟨_, htaken⟩, ⟨_, hagain⟩⟩

end RuleTable

end TokenGrammar
