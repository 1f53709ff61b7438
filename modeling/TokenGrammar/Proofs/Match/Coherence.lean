/-
  TokenGrammar.Proofs.Match.Coherence

  What the frames, the reader and the open rules of a run have to do with each other.
  The bottom frame is that of the rule `ROOT`.  Every other frame stands on a frame
  whose cursor is at the element that it was opened for, and begins where that element
  was attempted; so the checkpoints of the frames never descend from the bottom to the
  top, nor from there to the reader, and the open rules are those of the frames.

  The invariant is `Setting.Coherent`.  It is kept by the three things that happen to a
  stack (`Coherent.withTop`, `Coherent.push`, `Coherent.exists_closes`) and when the
  reader moves (`Coherent.onward`, `Coherent.seek`), hence by every step
  (`Setting.sound_step`).

  Main statement: it holds in every state that a run comes to, so that a run never lacks
  an element for a frame that has ended (`RuleTable.coherent_of_reaches`).
-/

import TokenGrammar.Proofs.Match.Scanners
import TokenGrammar.Proofs.Match.Trail

namespace TokenGrammar

variable {σ : Type}

-- ============================================================================
-- Frames on frames
-- ============================================================================

/-- The frames of a stack, from the top one down. -/
def Stack.frames (stack : Stack) : List Frame := stack.top :: stack.below

theorem Stack.frames_of_pop? {stack parent : Stack} {node : Node}
    (h : stack.pop? = some (parent, node)) : stack.below = parent.frames := by
  obtain ⟨top, below, room⟩ := stack
  unfold pop? at h
  dsimp only at h
  split at h
  · cases h
  · split at h
    · cases h
    · cases h
      rfl

theorem Stack.exists_rest_of_pop? {stack parent : Stack} {node : Node}
    (h : stack.pop? = some (parent, node)) : ∃ rest, parent.top.rest = node :: rest := by
  obtain ⟨top, below, room⟩ := stack
  unfold pop? at h
  dsimp only at h
  split at h
  · cases h
  · split at h
    · cases h
    · next node' rest hrest =>
      cases h
      exact ⟨rest, hrest⟩

theorem Stack.frames_of_push? {stack pushed : Stack} {frame : Frame}
    (h : stack.push? frame = some pushed) : pushed.frames = frame :: stack.frames := by
  unfold push? at h
  split at h
  · cases h
  · cases h
    rfl

/-- What an element opens a frame for, and the whole sequence of that frame: a
    reference the rule that it names, an alternation one of its branches, where as many
    branches have failed as stand before that one. -/
inductive Opens (rules : RuleTable) : Node → Origin → List Node → Prop where
  | rule {modifiers : Modifiers} {span : Span} {name : String} {nodes : List Node}
      (h : rules.nodes? name = some nodes) :
      Opens rules (.ref modifiers span name) (.rule name) nodes
  | branch {modifiers : Modifiers} {span : Span} {onceEach : Bool}
      {tried later : List (List Node)} {nodes : List Node} {failed : List Failure}
      (h : failed.length = tried.length) :
      Opens rules (.alternation modifiers span (tried ++ nodes :: later) onceEach)
        (.branch failed later) nodes

theorem Opens.origin_ne_root {rules : RuleTable} {node : Node} {origin : Origin}
    {nodes : List Node} (h : Opens rules node origin nodes) : origin ≠ .root := by
  cases h with
  | rule => exact nofun
  | branch => exact nofun

namespace Frame

/-- A frame was opened for the element at the cursor of the frame below it, and began
    where that element was attempted. -/
structure StandsOn (rules : RuleTable) (above below : Frame) : Prop where
  opened : ∃ node rest nodes, below.rest = node :: rest ∧ Opens rules node above.origin nodes ∧
    above.rest <:+ nodes
  entry_eq : above.entry = below.attempt

/-- The checkpoints of a frame fit a reader: the frame began before the attempt at its
    element did, the reader has not gone back behind either nor, on the way, passed the
    end of the stream, and all of them are of one mind about line ends. -/
structure Fits (frame : Frame) (reader : Reader) : Prop where
  entry_le : frame.entry.position ≤ frame.attempt.position
  attempt_le : frame.attempt.position ≤ reader.position
  le_last : reader.position ≤ max reader.stream.last frame.attempt.position
  entry_skipLines : frame.entry.skipLines = reader.skipLines
  attempt_skipLines : frame.attempt.skipLines = reader.skipLines

/-- No frame was attempting its element behind where a frame above it began. -/
theorem attempt_le_entry {rules : RuleTable} {top : Frame} {below : List Frame}
    (hlinked : (top :: below).IsChain (StandsOn rules))
    (hentry : ∀ frame ∈ below, frame.entry.position ≤ frame.attempt.position) :
    ∀ frame ∈ below, frame.attempt.position ≤ top.entry.position := by
  induction below generalizing top with
  | nil => exact fun frame hframe => nomatch hframe
  | cons parent below ih =>
      obtain ⟨hstands, hlinked⟩ := List.isChain_cons_cons.1 hlinked
      obtain ⟨hparent, hbelow⟩ := List.forall_mem_cons.1 hentry
      have heq : top.entry.position = parent.attempt.position := by rw [hstands.entry_eq]
      refine List.forall_mem_cons.2 ⟨Nat.le_of_eq heq.symm, fun frame hframe => ?_⟩
      have hle := ih hlinked hbelow frame hframe
      omega

end Frame

-- ============================================================================
-- The invariant
-- ============================================================================

/-- What holds of the stack, the reader and the open rules of a run, the innermost rule
    first. -/
structure Setting.Coherent (setting : Setting σ) (stack : Stack) (reader : Reader)
    (scopes : List String) : Prop where
  /-- There are as many frames as the limit allows, but for the room that is left. -/
  depth_eq : stack.frames.length + stack.room = setting.limit
  /-- The bottom frame, and no other one, is that of the rule that matching begins
      with. -/
  root : ∃ above bottom, stack.frames = above ++ [bottom] ∧ bottom.origin = .root ∧
    ∀ frame ∈ above, frame.origin ≠ .root
  /-- The open rules are those that have frames. -/
  scopes_eq : scopes = stack.frames.filterMap fun frame => frame.origin.rule?
  linked : stack.frames.IsChain (Frame.StandsOn setting.rules)
  fits : ∀ frame ∈ stack.frames, frame.Fits reader

/-- The rules that stay open when a frame is gone. -/
def Origin.closed : Origin → List String → List String
  | .branch .., scopes => scopes
  | _, scopes => scopes.tail

namespace Setting

variable {setting : Setting σ} {stack : Stack} {reader : Reader} {scopes : List String}

namespace Coherent

theorem fits_top (h : setting.Coherent stack reader scopes) : stack.top.Fits reader :=
  h.fits stack.top List.mem_cons_self

-- ----------------------------------------------------------------------------
-- The reader moves
-- ----------------------------------------------------------------------------

/-- The reader may be anywhere between the attempt at the top frame's element and the
    end of the stream. -/
theorem moveReader (h : setting.Coherent stack reader scopes) {other : Reader}
    (hstream : other.stream = reader.stream) (hskip : other.skipLines = reader.skipLines)
    (hle : stack.top.attempt.position ≤ other.position)
    (hlast : other.position ≤ max reader.stream.last reader.position) :
    setting.Coherent stack other scopes := by
  refine ⟨h.depth_eq, h.root, h.scopes_eq, h.linked, fun frame hframe => ?_⟩
  obtain ⟨hentry, hattempt, hbound, hentrySkip, hattemptSkip⟩ := h.fits frame hframe
  have htop : frame.attempt.position ≤ stack.top.attempt.position := by
    rcases List.mem_cons.1 hframe with rfl | hbelow
    · exact Nat.le_refl _
    · have hordered : ∀ frame ∈ stack.below, frame.entry.position ≤ frame.attempt.position :=
        fun frame hmem => (h.fits frame (List.mem_cons_of_mem _ hmem)).entry_le
      have hbefore := Frame.attempt_le_entry h.linked hordered frame hbelow
      exact Nat.le_trans hbefore h.fits_top.entry_le
  refine ⟨hentry, Nat.le_trans htop hle, ?_, hentrySkip.trans hskip.symm,
    hattemptSkip.trans hskip.symm⟩
  rw [hstream]
  omega

theorem onward (h : setting.Coherent stack reader scopes) {further : Reader}
    (honward : reader.Onward further) : setting.Coherent stack further scopes :=
  h.moveReader honward.stream_eq honward.skipLines_eq
    (Nat.le_trans h.fits_top.attempt_le honward.position_le) honward.le_last

/-- The reader may go back to where the top frame's element was attempted. -/
theorem seek (h : setting.Coherent stack reader scopes) :
    setting.Coherent stack (reader.seek stack.top.attempt) scopes :=
  h.moveReader rfl h.fits_top.attempt_skipLines (Nat.le_refl _)
    (Nat.le_trans h.fits_top.attempt_le (Nat.le_max_right _ _))

-- ----------------------------------------------------------------------------
-- The stack changes
-- ----------------------------------------------------------------------------

/-- The top frame may go on, but not with other elements than it has left, nor as if it
    had begun elsewhere. -/
theorem withTop (h : setting.Coherent stack reader scopes) {top : Frame}
    (horigin : top.origin = stack.top.origin) (hrest : top.rest <:+ stack.top.rest)
    (hentry : top.entry = stack.top.entry) (hfits : top.Fits reader) :
    setting.Coherent (stack.withTop top) reader scopes := by
  obtain ⟨old, below, room⟩ := stack
  obtain ⟨hdepth, ⟨above, bottom, hframes, hbottom, hothers⟩, hscopes, hlinked, hall⟩ := h
  dsimp only at horigin hrest hentry
  refine ⟨hdepth, ?_, ?_, ?_, ?_⟩
  · cases above with
    | nil =>
        obtain ⟨rfl, rfl⟩ := List.cons.inj hframes
        exact ⟨[], top, rfl, horigin.trans hbottom, hothers⟩
    | cons first above =>
        obtain ⟨rfl, hbelow⟩ := List.cons.inj hframes
        obtain ⟨hfirst, habove⟩ := List.forall_mem_cons.1 hothers
        refine ⟨top :: above, bottom, congrArg (top :: ·) hbelow, hbottom, ?_⟩
        rw [← horigin] at hfirst
        exact List.forall_mem_cons.2 ⟨hfirst, habove⟩
  · rw [hscopes]
    simp only [Stack.frames, Stack.withTop, List.filterMap_cons, horigin]
  · cases below with
    | nil => exact List.isChain_singleton top
    | cons parent below =>
        obtain ⟨⟨⟨node, rest, nodes, hcursor, hopens, hsuffix⟩, hattempt⟩, hbelow⟩ :=
          List.isChain_cons_cons.1 hlinked
        have hstands : top.StandsOn setting.rules parent :=
          ⟨⟨node, rest, nodes, hcursor, horigin ▸ hopens, hrest.trans hsuffix⟩,
            hentry.trans hattempt⟩
        exact List.isChain_cons_cons.2 ⟨hstands, hbelow⟩
  · exact List.forall_mem_cons.2 ⟨hfits, (List.forall_mem_cons.1 hall).2⟩

/-- The top frame may go on with the elements that it has left, or with fewer. -/
theorem goOn (h : setting.Coherent stack reader scopes) {top : Frame}
    (horigin : top.origin = stack.top.origin) (hrest : top.rest <:+ stack.top.rest)
    (hentry : top.entry = stack.top.entry) (hattempt : top.attempt = stack.top.attempt) :
    setting.Coherent (stack.withTop top) reader scopes := by
  obtain ⟨hle, hreader, hlast, hentrySkip, hattemptSkip⟩ := h.fits_top
  rw [← hentry] at hentrySkip
  rw [← hattempt] at hreader hlast hattemptSkip
  rw [← hentry, ← hattempt] at hle
  exact h.withTop horigin hrest hentry ⟨hle, hreader, hlast, hentrySkip, hattemptSkip⟩

/-- A frame may be opened for the element at the top frame's cursor. -/
theorem push (h : setting.Coherent stack reader scopes) {pushed : Stack} {node : Node}
    {rest : List Node} {origin : Origin} {nodes : List Node}
    (hpush : stack.push? (.start origin nodes stack.top.attempt) = some pushed)
    (hrest : stack.top.rest = node :: rest) (hopens : Opens setting.rules node origin nodes) :
    setting.Coherent pushed reader (origin.rule?.toList ++ scopes) := by
  obtain ⟨-, hattempt, hlast, -, hskip⟩ := h.fits_top
  obtain ⟨top, below, room⟩ := stack
  obtain ⟨hdepth, ⟨above, bottom, hframes, hbottom, hothers⟩, hscopes, hlinked, hall⟩ := h
  cases room with
  | zero => cases hpush
  | succ room =>
      cases hpush
      refine ⟨?_, ?_, ?_, ?_, ?_⟩
      · simp only [Stack.frames, List.length_cons] at hdepth ⊢
        omega
      · refine ⟨.start origin nodes top.attempt :: above, bottom, ?_, hbottom, ?_⟩
        · exact congrArg (_ :: ·) hframes
        · exact List.forall_mem_cons.2 ⟨hopens.origin_ne_root, hothers⟩
      · rw [hscopes]
        cases horigin : origin.rule? <;>
          simp only [Stack.frames, List.filterMap_cons, Frame.start, horigin, Option.toList,
            List.nil_append, List.cons_append]
      · have hstands : (Frame.start origin nodes top.attempt).StandsOn setting.rules top :=
          ⟨⟨node, rest, nodes, hrest, hopens, List.suffix_refl nodes⟩, rfl⟩
        exact List.isChain_cons_cons.2 ⟨hstands, hlinked⟩
      · exact List.forall_mem_cons.2 ⟨⟨Nat.le_refl _, hattempt, hlast, hskip, hskip⟩, hall⟩

/-- A frame stands on the rest of its stack, which is coherent without it: the element
    that it was opened for is at the cursor below, and another frame may take its
    place. -/
structure Closes (setting : Setting σ) (stack parent : Stack) (node : Node) (reader : Reader)
    (scopes : List String) : Prop where
  pop?_eq : stack.pop? = some (parent, node)
  push?_eq : ∀ frame, parent.push? frame = some (stack.withTop frame)
  opened : ∃ rest nodes, parent.top.rest = node :: rest ∧
    Opens setting.rules node stack.top.origin nodes
  attempt_eq : parent.top.attempt = stack.top.entry
  coherent : setting.Coherent parent reader (stack.top.origin.closed scopes)

/-- Any frame but the bottom one may be closed. -/
theorem exists_closes (h : setting.Coherent stack reader scopes)
    (horigin : stack.top.origin ≠ .root) :
    ∃ parent node, Closes setting stack parent node reader scopes := by
  obtain ⟨top, below, room⟩ := stack
  obtain ⟨hdepth, ⟨above, bottom, hframes, hbottom, hothers⟩, hscopes, hlinked, hall⟩ := h
  dsimp only at horigin
  cases below with
  | nil =>
      obtain ⟨rfl, -⟩ := (List.append_eq_singleton_iff.1 hframes.symm).resolve_right
        fun hnil => nomatch hnil.2
      cases hframes
      exact absurd hbottom horigin
  | cons parent below =>
      obtain ⟨hstands, hbelow⟩ := List.isChain_cons_cons.1 hlinked
      obtain ⟨node, rest, nodes, hcursor, hopens, -⟩ := hstands.opened
      have hparent : setting.Coherent ⟨parent, below, room + 1⟩ reader
          (top.origin.closed scopes) := by
        refine ⟨?_, ?_, ?_, hbelow, (List.forall_mem_cons.1 hall).2⟩
        · simp only [Stack.frames, List.length_cons] at hdepth ⊢
          omega
        · cases above with
          | nil => cases (List.cons.inj hframes).2
          | cons first above =>
              exact ⟨above, bottom, (List.cons.inj hframes).2, hbottom,
                (List.forall_mem_cons.1 hothers).2⟩
        · rw [hscopes]
          simp only [Stack.frames, List.filterMap_cons]
          cases htop : top.origin with
          | root => exact absurd htop horigin
          | rule name => rfl
          | branch failed later => rfl
      refine ⟨⟨parent, below, room + 1⟩, node, ?_, fun _ => rfl, ⟨rest, nodes, hcursor, hopens⟩,
        hstands.entry_eq.symm, hparent⟩
      simp only [Stack.pop?, hcursor]

/-- An alternation that goes on to its next branch opens that branch in place of the one
    that failed. -/
theorem switch (h : setting.Coherent stack reader scopes) {failed : List Failure}
    {next : List Node} {later : List (List Node)}
    (horigin : stack.top.origin = .branch failed (next :: later)) (failure : Failure) :
    setting.Coherent
      (stack.withTop (.start (.branch (failure :: failed) later) next stack.top.entry))
      (reader.seek stack.top.entry) scopes := by
  obtain ⟨parent, node, hcloses⟩ := h.exists_closes (by rw [horigin]; exact nofun)
  obtain ⟨rest, nodes, hcursor, hopens⟩ := hcloses.opened
  have hparent := hcloses.coherent
  rw [horigin] at hopens hparent
  rw [← hcloses.attempt_eq]
  have hnext : Opens setting.rules node (.branch (failure :: failed) later) next := by
    cases hopens with
    | @branch modifiers span onceEach tried _ _ _ hlength =>
        have hbranches : tried ++ nodes :: next :: later = (tried ++ [nodes]) ++ next :: later := by
          rw [List.append_assoc]
          rfl
        rw [hbranches]
        refine .branch ?_
        rw [List.length_cons, hlength, List.length_append]
        rfl
  exact hparent.seek.push (hcloses.push?_eq _) hcursor hnext

end Coherent

-- ============================================================================
-- Steps
-- ============================================================================

end Setting

theorem Track.scopes_rewind (listener : Listener σ) (checkpoint : Checkpoint) (track : Track σ) :
    (track.rewind listener checkpoint).2.scopes = track.scopes := by
  unfold rewind
  dsimp only
  split
  · split
    · next h => exact congrArg (fun r => r.2.scopes) h.symm
    · next h => exact congrArg (fun r => r.2.scopes) h.symm
  · rfl

namespace Step

/-- What a step may lead to, where the attempt that it may bring to its end began with
    the reader at `begun`: a coherent state, or an end that is not for want of an element
    and, if a repeated element has matched without any input, where the reader was
    then. -/
def Sound (setting : Setting σ) (begun : Nat) : Step σ → Prop
  | .next state => setting.Coherent state.stack state.track.reader state.track.scopes
  | .done (.aborted .noElement) _ => False
  | .done (.aborted (.emptyRepetition _)) track => track.reader.position = begun
  | .done _ _ => True

variable {setting : Setting σ} {begun : Nat}

/-- A run may go on as long as the reader and the open rules stay as they are. -/
theorem sound_next {stack : Stack} {phase : Phase} {track told : Track σ}
    (h : setting.Coherent stack track.reader track.scopes) (hreader : told.reader = track.reader)
    (hscopes : told.scopes = track.scopes) :
    (Step.next ⟨stack, phase, told⟩).Sound setting begun := by
  show setting.Coherent stack told.reader told.scopes
  rw [hreader, hscopes]
  exact h

/-- What is asked of going on after going back. -/
theorem sound_rewindThen {checkpoint : Checkpoint} {track : Track σ} {goOn : Track σ → Step σ}
    (h : ∀ back : Track σ, back.reader = track.reader.seek checkpoint →
      back.scopes = track.scopes → (goOn back).Sound setting begun) :
    (setting.rewindThen checkpoint track goOn).Sound setting begun := by
  have hreader := Track.reader_rewind setting.listener checkpoint track
  have hscopes := Track.scopes_rewind setting.listener checkpoint track
  unfold Setting.rewindThen
  rcases hrewind : track.rewind setting.listener checkpoint with ⟨_ | refusal, back⟩
  · rw [hrewind] at hreader hscopes
    exact h back hreader hscopes
  · trivial

/-- What is asked of going on after an event. -/
theorem sound_emitThen {event : Event} {track : Track σ}
    {rejected : Failure → Track σ → Step σ} {accepted : Track σ → Step σ}
    (hrejected : ∀ (failure : Failure) (told : Track σ), told.reader = track.reader →
      told.scopes = track.scopes → (rejected failure told).Sound setting begun)
    (haccepted : ∀ told : Track σ, told.reader = track.reader → told.scopes = track.scopes →
      (accepted told).Sound setting begun) :
    (setting.emitThen event track rejected accepted).Sound setting begun := by
  have hreader := Track.reader_emit setting.listener event track
  have hscopes : (track.emit setting.listener event).2.scopes = track.scopes := rfl
  unfold Setting.emitThen
  rcases hemit : track.emit setting.listener event with ⟨_ | refusal | refusal, told⟩
  all_goals rw [hemit] at hreader hscopes
  · exact haccepted told hreader hscopes
  · exact hrejected _ told hreader hscopes
  · trivial

end Step

namespace Setting

variable {setting : Setting σ} {stack : Stack} {track : Track σ} {begun : Nat}

/-- A repeated element goes on if and only if the reader has moved since it was
    attempted. -/
theorem sound_afterMatch (track : Track σ)
    (h : setting.Coherent stack track.reader track.scopes) (node : Node) :
    (stack.afterMatch node track).Sound setting stack.top.attempt.position := by
  have hfits := h.fits_top
  unfold Stack.afterMatch
  split
  · split
    · exact h.goOn rfl (List.suffix_refl _) rfl rfl
    · next hfewer =>
      have hle := hfits.attempt_le
      have hlast := hfits.le_last
      simp only [Reader.remaining, TokenStream.remaining] at hfewer
      show track.reader.position = stack.top.attempt.position
      omega
  · exact h.goOn rfl (List.tail_suffix _) rfl rfl

theorem sound_afterFailure (track : Track σ)
    (h : setting.Coherent stack track.reader track.scopes) (node : Node) (failure : Failure) :
    (stack.afterFailure node failure track).Sound setting begun := by
  unfold Stack.afterFailure
  split
  · exact h.goOn rfl (List.tail_suffix _) rfl rfl
  · split
    · trivial
    · exact h

-- ----------------------------------------------------------------------------
-- Attempts
-- ----------------------------------------------------------------------------

theorem sound_attemptTerminal (h : setting.Coherent stack track.reader track.scopes)
    (hattempt : stack.top.attempt = track.reader.checkpoint) (node : Node) (pattern : Terminal) :
    (setting.attemptTerminal stack node pattern track).Sound setting track.reader.position := by
  have hbegun : track.reader.position = stack.top.attempt.position := by rw [hattempt]; rfl
  unfold attemptTerminal
  split
  · next miss hmiss => exact sound_afterFailure (track.offer _ _) h node _
  · next matched reader hmatch =>
    have honward := h.onward (Terminal.onward_of_matchAt hmatch)
    refine Step.sound_emitThen (fun failure told hreader hscopes => ?_)
      (fun told hreader hscopes => ?_)
    · refine Step.sound_rewindThen fun back hback hopen => sound_afterFailure back ?_ node failure
      rw [hback, hopen]
      show setting.Coherent stack (told.reader.seek stack.top.attempt) told.scopes
      rw [hreader, hscopes]
      exact honward.seek
    · rw [hbegun]
      apply sound_afterMatch
      rw [hreader, hscopes]
      exact honward

theorem sound_attemptRule (h : setting.Coherent stack track.reader track.scopes) {name : String}
    {modifiers : Modifiers} {span : Span} {rest : List Node}
    (hrest : stack.top.rest = .ref modifiers span name :: rest) :
    (setting.attemptRule stack name track).Sound setting begun := by
  unfold attemptRule
  split
  · trivial
  · next nodes hnodes =>
    split
    · trivial
    · next pushed hpush =>
      have hpushed := h.push hpush hrest (.rule hnodes)
      exact Step.sound_emitThen
        (fun failure told hreader hscopes => Step.sound_next hpushed hreader hscopes)
        (fun told hreader hscopes => Step.sound_next hpushed hreader hscopes)

theorem sound_attemptAlternation (h : setting.Coherent stack track.reader track.scopes)
    {modifiers : Modifiers} {span : Span} {branches : List (List Node)} {onceEach : Bool}
    {rest : List Node}
    (hrest : stack.top.rest = .alternation modifiers span branches onceEach :: rest) :
    (setting.attemptAlternation stack (.alternation modifiers span branches onceEach) branches
      track).Sound setting begun := by
  unfold attemptAlternation
  split
  · exact sound_afterFailure track h _ _
  · next first later =>
    split
    · trivial
    · next pushed hpush =>
      have hopens : Opens setting.rules (.alternation modifiers span (first :: later) onceEach)
          (.branch [] later) first := @Opens.branch _ _ _ _ [] _ _ [] rfl
      exact h.push hpush hrest hopens

theorem sound_attempt (h : setting.Coherent stack track.reader track.scopes) {node : Node}
    {rest : List Node} (hrest : stack.top.rest = node :: rest) :
    (setting.attempt stack node track).Sound setting track.reader.position := by
  obtain ⟨hentry, hattempt, -, hskip, -⟩ := h.fits_top
  let top : Frame := { stack.top with attempt := track.reader.checkpoint }
  have hfits : top.Fits track.reader :=
    ⟨Nat.le_trans hentry hattempt, Nat.le_refl _, Nat.le_max_right _ _, hskip, rfl⟩
  have hattempted : setting.Coherent (stack.withTop top) track.reader track.scopes :=
    h.withTop rfl (List.suffix_refl _) rfl hfits
  cases node with
  | terminal modifiers span pattern => exact sound_attemptTerminal hattempted rfl _ pattern
  | ref modifiers span name => exact sound_attemptRule hattempted hrest
  | alternation modifiers span branches onceEach => exact sound_attemptAlternation hattempted hrest

-- ----------------------------------------------------------------------------
-- Ends of frames
-- ----------------------------------------------------------------------------

theorem sound_closeRule (h : setting.Coherent stack track.reader track.scopes)
    {name : String} (horigin : stack.top.origin = .rule name) :
    (closeRule stack track).Sound setting stack.top.entry.position := by
  obtain ⟨parent, node, hpop, -, -, hattempt, hparent⟩ :=
    h.exists_closes (by rw [horigin]; exact nofun)
  rw [horigin] at hparent
  unfold closeRule
  rw [horigin, ← hattempt]
  dsimp only
  rw [hpop]
  exact sound_afterMatch track.closeRule hparent node

theorem sound_finishRule (h : setting.Coherent stack track.reader track.scopes) {name : String}
    (horigin : stack.top.origin = .root ∨ ∃ name, stack.top.origin = .rule name) :
    (setting.finishRule stack name track).Sound setting stack.top.entry.position := by
  refine Step.sound_emitThen
    (fun failure told hreader hscopes => Step.sound_next h hreader hscopes)
    (fun told hreader hscopes => ?_)
  rw [← hreader, ← hscopes] at h
  rcases horigin with hroot | ⟨name, hrule⟩
  · rw [closeRule, hroot]
    trivial
  · exact sound_closeRule h hrule

theorem sound_finishBranch (h : setting.Coherent stack track.reader track.scopes)
    {failed : List Failure} {later : List (List Node)}
    (horigin : stack.top.origin = .branch failed later) (index : Nat) :
    (setting.finishBranch stack index track).Sound setting stack.top.entry.position := by
  obtain ⟨parent, node, hpop, -, -, hattempt, hparent⟩ :=
    h.exists_closes (by rw [horigin]; exact nofun)
  rw [horigin] at hparent
  unfold finishBranch
  simp only [hpop, ← hattempt]
  split
  · split
    · refine Step.sound_rewindThen fun back hback hscopes =>
        sound_afterFailure (back.offerHere _) ?_ node _
      show setting.Coherent parent back.reader back.scopes
      rw [hback, hscopes]
      exact hparent.seek
    · have htaken : setting.Coherent (parent.withTop (parent.top.take index)) track.reader
          track.scopes := hparent.goOn rfl (List.suffix_refl _) rfl rfl
      exact sound_afterMatch track htaken node
  · exact sound_afterMatch track hparent node

theorem sound_finish (h : setting.Coherent stack track.reader track.scopes) :
    (setting.finish stack track).Sound setting stack.top.entry.position := by
  unfold finish
  split
  · next horigin => exact sound_finishRule h (.inl horigin)
  · next name horigin => exact sound_finishRule h (.inr ⟨name, horigin⟩)
  · next failed later horigin => exact sound_finishBranch h horigin _

/-- A frame that fails is closed with the reader back where it began. -/
theorem sound_giveUp (track : Track σ) {reader : Reader} {scopes : List String}
    (h : setting.Coherent stack reader scopes) (horigin : stack.top.origin ≠ .root)
    (hreader : track.reader = reader.seek stack.top.entry)
    (hscopes : track.scopes = stack.top.origin.closed scopes) (failure : Failure) :
    (stack.giveUp failure track).Sound setting begun := by
  obtain ⟨parent, node, hpop, -, -, hattempt, hparent⟩ := h.exists_closes horigin
  unfold Stack.giveUp
  rw [hpop]
  apply sound_afterFailure
  rw [hreader, hscopes, ← hattempt]
  exact hparent.seek

theorem sound_fail (h : setting.Coherent stack track.reader track.scopes) (failure : Failure) :
    (setting.fail stack failure track).Sound setting begun := by
  unfold fail
  dsimp only
  split
  · exact Step.sound_rewindThen fun back _ _ => trivial
  · next name horigin =>
    refine Step.sound_rewindThen fun back hback hscopes => ?_
    have hclosed : back.closeRule.scopes = stack.top.origin.closed track.scopes := by
      rw [horigin, ← hscopes]
      rfl
    exact sound_giveUp back.closeRule h (by rw [horigin]; exact nofun) hback hclosed failure
  · next failed horigin =>
    refine Step.sound_rewindThen fun back hback hscopes => ?_
    refine sound_giveUp back h (by rw [horigin]; exact nofun) hback ?_ _
    rw [horigin]
    exact hscopes
  · next failed next later horigin =>
    refine Step.sound_rewindThen fun back hback hscopes => ?_
    show setting.Coherent _ back.reader back.scopes
    rw [hback, hscopes]
    exact h.switch horigin failure

end Setting

/-- Where the reader was when the attempt began that the next step may bring to its end:
    where it is now, or where the top frame began if that has no more elements. -/
def State.begun (state : State σ) : Nat :=
  match state.stack.top.rest with
  | [] => state.stack.top.entry.position
  | _ :: _ => state.track.reader.position

namespace Setting

variable {setting : Setting σ}

/-- Every step from a coherent state leads to one, or ends the run. -/
theorem sound_step {state : State σ}
    (h : setting.Coherent state.stack state.track.reader state.track.scopes) :
    (setting.step state).Sound setting state.begun := by
  obtain ⟨stack, phase, track⟩ := state
  cases phase with
  | failing failure => exact sound_fail h failure
  | matching =>
      cases hrest : stack.top.rest with
      | nil =>
          simp only [step, State.begun, hrest]
          exact sound_finish h
      | cons node rest =>
          simp only [step, State.begun, hrest]
          exact sound_attempt h hrest

/-- A run begins in a coherent state, if it begins at all. -/
theorem sound_start (setting : Setting σ) (reader : Reader) (memory : σ) :
    (setting.start reader memory).Sound setting begun := by
  unfold start
  dsimp only
  split
  · trivial
  · trivial
  · next nodes room hnodes hroom =>
    let root : Frame := .start .root nodes reader.checkpoint
    have hfits : root.Fits reader :=
      ⟨Nat.le_refl _, Nat.le_refl _, Nat.le_max_right _ _, rfl, rfl⟩
    have hbegins : setting.Coherent ⟨root, [], room⟩ reader [rootName] := by
      refine ⟨?_, ⟨[], root, rfl, rfl, fun _ hmem => nomatch hmem⟩, rfl, List.isChain_singleton _,
        fun frame hframe => ?_⟩
      · rw [hroom]
        exact Nat.add_comm 1 room
      · rw [List.mem_singleton.1 hframe]
        exact hfits
    exact Step.sound_emitThen
      (fun failure told hreader hscopes => Step.sound_next hbegins hreader hscopes)
      (fun told hreader hscopes => Step.sound_next hbegins hreader hscopes)

-- ============================================================================
-- Runs
-- ============================================================================

/-- The states that a run comes to, given what it began with. -/
inductive Reaches (setting : Setting σ) (first : Step σ) : State σ → Prop where
  | begin {state : State σ} (h : first = .next state) : Reaches setting first state
  | step {state after : State σ} (h : Reaches setting first state)
      (hstep : setting.step state = .next after) : Reaches setting first after

/-- A run that begins coherently stays so. -/
theorem Reaches.coherent {first : Step σ} {state : State σ} (hfirst : first.Sound setting begun)
    (h : setting.Reaches first state) :
    setting.Coherent state.stack state.track.reader state.track.scopes := by
  induction h with
  | begin h =>
      rw [h] at hfirst
      exact hfirst
  | step _ hstep ih =>
      have hsound := sound_step ih
      rw [hstep] at hsound
      exact hsound

theorem Arrives.reaches {first : Step σ} {past : List (State σ)} {state : State σ}
    (h : setting.Arrives first past state) : setting.Reaches first state := by
  induction h with
  | begin hbegin => exact .begin hbegin
  | step _ hstep ih => exact ih.step hstep

/-- A run ends at once, or with a step from the last state that it comes to. -/
theorem exists_last {first : Step σ} {ending : Ending} {track : Track σ}
    (h : setting.complete first = (ending, track)) :
    first = .done ending track ∨
      ∃ state, setting.Reaches first state ∧ setting.step state = .done ending track := by
  rcases exists_arrives_last h with hdone | ⟨past, last, harrives, hstep, -⟩
  · exact .inl hdone
  · exact .inr ⟨last, harrives.reaches, hstep⟩

end Setting

/-- Whatever the rules, the input, the options and the listener are, in every state that
    a run comes to there is a frame, there are no more frames than the limit allows, and
    the frames, the reader and the open rules are coherent.  So no run stops for want of
    an element that a frame was opened for. -/
theorem RuleTable.coherent_of_reaches (rules : RuleTable) (options : Options)
    (listener : Listener σ) (reader : Reader) (memory : σ) :
    let setting : Setting σ := ⟨rules, options.recursionLimit, listener⟩
    let first := setting.start (reader.withSkipLines (!rules.usesLineEnds)) memory
    (∀ state, setting.Reaches first state →
      0 < state.stack.frames.length ∧ state.stack.frames.length ≤ options.recursionLimit ∧
      setting.Coherent state.stack state.track.reader state.track.scopes) ∧
    ∀ track, setting.complete first ≠ (.aborted .noElement, track) := by
  intro setting first
  have hfirst : first.Sound setting 0 := setting.sound_start _ _
  refine ⟨fun state hreaches => ?_, fun track hcomplete => ?_⟩
  · have hcoherent := hreaches.coherent hfirst
    have hdepth : state.stack.frames.length + state.stack.room = options.recursionLimit :=
      hcoherent.depth_eq
    exact ⟨Nat.succ_pos _, by omega, hcoherent⟩
  · rcases Setting.exists_last hcomplete with hdone | ⟨state, hreaches, hstep⟩
    · rw [hdone] at hfirst
      exact hfirst
    · have hsound := Setting.sound_step (hreaches.coherent hfirst)
      rw [hstep] at hsound
      exact hsound

/-- The rules `ROOT := item` and `item := [ KEYWORD | ID ]`. -/
def RuleTable.keywordOrWord : RuleTable where
  rules :=
    [⟨rootName, [.ref .plain .zero "item"], .zero⟩,
     ⟨"item",
      [.alternation .plain .zero
        [[.terminal .plain .zero (.ofCategory .keyword)],
         [.terminal .plain .zero (.ofCategory .identifier)]] false], .zero⟩]

/-- The tokens of the text `a`. -/
def TokenStream.word : TokenStream where
  tokens := #[⟨.beginning, "", ⟨0, 0⟩, 1, 1⟩, ⟨.identifier, "a", ⟨0, 1⟩, 1, 1⟩]
  ending := ⟨.ending, "", ⟨1, 1⟩, 1, 2⟩

/-- A run with three frames, the top one of which is at the second branch of an
    alternation. -/
theorem RuleTable.coherent_at_second_branch :
    let setting : Setting Unit := ⟨keywordOrWord, 3, .acceptAll⟩
    let first := setting.start ⟨.word, 0, true⟩ ()
    ∃ state failed, setting.Reaches first state ∧ state.stack.frames.length = 3 ∧
      state.stack.top.origin = .branch [failed] [] ∧
      setting.Coherent state.stack state.track.reader state.track.scopes := by
  intro setting first
  have hreaches : ∃ state failed, setting.Reaches first state ∧ state.stack.frames.length = 3 ∧
      state.stack.top.origin = .branch [failed] [] :=
    ⟨_, _, .step (.step (.step (.step (.begin rfl) rfl) rfl) rfl) rfl, rfl, rfl⟩
  obtain ⟨state, failed, hreaches, hdepth, horigin⟩ := hreaches
  have hcoherent := (keywordOrWord.coherent_of_reaches ⟨3, true⟩ .acceptAll ⟨.word, 0, true⟩ ()).1
    state hreaches
  exact ⟨state, failed, hreaches, hdepth, horigin, hcoherent.2.2⟩

end TokenGrammar
