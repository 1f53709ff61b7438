/-
  TokenGrammar.Proofs.Match.Beginnings

  Where attempts at elements began.  Every frame below the top one waits for an attempt that
  began where the frame was on top for the last time (`Setting.Arrives.awaits`), and nothing
  that has become of the frame since then matters: it is as it was.

  Main statement: when an element has failed, the reader is as it was when the attempt
  began (`RuleTable.failed_elements_consume_nothing`).
-/

import TokenGrammar.Proofs.Match.Attempts

namespace TokenGrammar

variable {σ : Type}

-- ============================================================================
-- Frames that wait
-- ============================================================================

/-- Among the states of a run, with the last one first, `begun` is the one in which the
    attempt began that some frames wait for: the element at the cursor of the top one of
    them was to be matched, and ever since then there have been more frames. -/
structure BeganAt (states : List (State σ)) (frames : List Frame) (begun : State σ)
    (earlier : List (State σ)) : Prop where
  since : ∃ later, states = later ++ begun :: earlier ∧
    ∀ between ∈ later, frames.length < between.stack.frames.length
  phase_eq : begun.phase = .matching
  rest_ne : begun.stack.top.rest ≠ []
  frames_eq : begun.attempting.frames = frames

/-- Every one of some frames waits for an attempt that began in the run. -/
def Awaits (past : List (State σ)) (frames : List Frame) : Prop :=
  ∀ frame below, frame :: below <:+ frames →
    ∃ begun earlier, BeganAt past (frame :: below) begun earlier

variable {past states : List (State σ)} {state begun : State σ} {earlier : List (State σ)}
  {frames : List Frame}

theorem BeganAt.cons (h : BeganAt states frames begun earlier)
    (hlt : frames.length < state.stack.frames.length) :
    BeganAt (state :: states) frames begun earlier := by
  obtain ⟨⟨later, hsplit, hlater⟩, hphase, hrest, hframes⟩ := h
  exact ⟨⟨state :: later, congrArg (state :: ·) hsplit, List.forall_mem_cons.2 ⟨hlt, hlater⟩⟩,
    hphase, hrest, hframes⟩

/-- An attempt begins where its element is to be matched. -/
theorem beganAt_self (hphase : state.phase = .matching) (hrest : state.stack.top.rest ≠ []) :
    BeganAt (state :: past) state.attempting.frames state past :=
  ⟨⟨[], rfl, fun _ hmem => nomatch hmem⟩, hphase, hrest, rfl⟩

namespace Awaits

theorem cons (h : Awaits past frames) (hlt : frames.length < state.stack.frames.length) :
    Awaits (state :: past) frames := by
  intro frame below hsuffix
  obtain ⟨begun, earlier, hbegan⟩ := h frame below hsuffix
  exact ⟨begun, earlier, hbegan.cons (Nat.lt_of_le_of_lt hsuffix.length_le hlt)⟩

theorem suffix (h : Awaits past frames) {fewer : List Frame} (hsuffix : fewer <:+ frames) :
    Awaits past fewer := fun frame below hbelow => h frame below (hbelow.trans hsuffix)

/-- The frames below the top one go on waiting, and the top one does if a frame is opened for
    its element. -/
theorem step {setting : Setting σ} {after : State σ} (h : Awaits past state.stack.below)
    (hbrings : setting.Brings state (.next after)) :
    Awaits (state :: past) after.stack.below := by
  have hbelow : Awaits (state :: past) state.stack.below := h.cons (Nat.lt_succ_self _)
  rcases hbrings.below with hsuffix | ⟨hphase, hrest, hopened⟩
  · exact hbelow.suffix hsuffix
  · rw [hopened]
    intro frame below hsuffix
    rcases List.suffix_cons_iff.1 hsuffix with heq | hsuffix
    · rw [heq]
      exact ⟨state, past, beganAt_self hphase hrest⟩
    · exact hbelow frame below hsuffix

end Awaits

-- ============================================================================
-- Runs
-- ============================================================================

namespace Setting

variable {setting : Setting σ} {first : Step σ} {reader : Reader} {memory : σ}

/-- A run begins with one frame, for a rule of which nothing has matched. -/
theorem stack_of_start (h : setting.start reader memory = .next state) :
    ∃ nodes room, state.stack = ⟨.start .root nodes reader.checkpoint, [], room⟩ := by
  unfold start at h
  dsimp only at h
  split at h
  · cases h
  · cases h
  · next nodes room _ _ =>
    unfold emitThen at h
    split at h <;> cases h <;> exact ⟨nodes, room, rfl⟩

/-- A run has arrived at every state that it comes from. -/
theorem Arrives.of_eq_append {later : List (State σ)} (h : setting.Arrives first past state)
    (hsplit : state :: past = later ++ begun :: earlier) :
    setting.Arrives first earlier begun := by
  induction later generalizing past state with
  | nil =>
      obtain ⟨rfl, rfl⟩ := List.cons.inj hsplit
      exact h
  | cons between later ih =>
      obtain ⟨-, hpast⟩ := List.cons.inj hsplit
      cases h with
      | begin => exact absurd hpast.symm (List.append_ne_nil_of_right_ne_nil _ (List.cons_ne_nil _ _))
      | step h _ => exact ih h hpast

theorem Arrives.stream_eq (h : setting.Arrives (setting.start reader memory) past state) :
    state.stream = reader.stream := by
  induction h with
  | begin hbegin => exact stream_of_start hbegin
  | @step past state after _ hstep ih =>
      have hdescends := setting.descends_step state
      rw [hstep] at hdescends
      exact hdescends.1.trans ih

theorem Arrives.coherent (h : setting.Arrives (setting.start reader memory) past state) :
    setting.Coherent state.stack state.track.reader state.track.scopes := by
  have hstart : (setting.start reader memory).Sound setting 0 := setting.sound_start _ _
  exact h.reaches.coherent hstart

/-- In every state of a run, the frames below the top one wait for attempts. -/
theorem Arrives.awaits (h : setting.Arrives (setting.start reader memory) past state) :
    Awaits past state.stack.below := by
  induction h with
  | begin hbegin =>
      obtain ⟨nodes, room, hstack⟩ := stack_of_start hbegin
      rw [hstack]
      intro frame below hsuffix
      cases List.suffix_nil.1 hsuffix
  | @step past state after harrives hstep ih =>
      have hbrings := brings_step harrives.coherent
      rw [hstep] at hbrings
      exact ih.step hbrings

/-- An attempt that began where its frames are coherent is that of the stack that has them. -/
theorem eq_attempting {parent : Stack} {scopes : List String} {reader : Reader}
    (h : setting.Coherent parent reader scopes)
    (hbegun : setting.Coherent begun.stack begun.track.reader begun.track.scopes)
    (hframes : begun.attempting.frames = parent.frames) : parent = begun.attempting := by
  have hlength : begun.stack.frames.length = parent.frames.length := by
    rw [← hframes]
    rfl
  have hdepth := h.depth_eq
  have hdepth' := hbegun.depth_eq
  have hroom : parent.room = begun.attempting.room := by
    show parent.room = begun.stack.room
    omega
  obtain ⟨top, below, room⟩ := parent
  obtain ⟨htop, hbelow⟩ := List.cons.inj hframes
  dsimp only at hroom htop hbelow
  rw [hroom, ← htop, ← hbelow]

/-- The top frame was opened by an attempt that began in the run.  The frame below it is as it
    was then, and the top frame began where the reader stood. -/
theorem Arrives.exists_beganAt (h : setting.Arrives (setting.start reader memory) past state)
    {parent : Stack} {node : Node} (hpop : state.stack.pop? = some (parent, node))
    (horigin : state.stack.top.origin ≠ .root) :
    ∃ begun earlier, BeganAt (state :: past) parent.frames begun earlier ∧
      parent = begun.attempting ∧ begun.track.scopes = state.stack.top.origin.closed
        state.track.scopes ∧
      state.track.reader.seek state.stack.top.entry = begun.track.reader ∧
      state.stack.top.entry = begun.track.reader.checkpoint := by
  have hframes := Stack.frames_of_pop? hpop
  obtain ⟨begun, earlier, hawaited⟩ := h.awaits parent.top parent.below
    (by rw [hframes]; exact List.suffix_refl _)
  have hlt : parent.frames.length < state.stack.frames.length := by
    show _ < state.stack.below.length + 1
    rw [hframes]
    exact Nat.lt_succ_self _
  have hbegan : BeganAt (state :: past) parent.frames begun earlier := hawaited.cons hlt
  obtain ⟨later, hsplit, -⟩ := hbegan.since
  have hbegun := h.of_eq_append hsplit
  obtain ⟨other, node', hcloses⟩ := h.coherent.exists_closes horigin
  obtain ⟨rfl, rfl⟩ := Prod.mk.inj (Option.some.inj (hcloses.pop?_eq.symm.trans hpop))
  have hparent := eq_attempting hcloses.coherent hbegun.coherent hbegan.frames_eq
  have hentry : state.stack.top.entry = begun.track.reader.checkpoint := by
    rw [← hcloses.attempt_eq, hparent]
    rfl
  have hstream : state.track.reader.stream = begun.track.reader.stream :=
    h.stream_eq.trans hbegun.stream_eq.symm
  refine ⟨begun, earlier, hbegan, hparent, ?_, ?_, hentry⟩
  · rw [hcloses.coherent.scopes_eq, hbegun.coherent.scopes_eq, hparent]
    rfl
  · rw [hentry]
    simp only [Reader.seek, Reader.checkpoint, hstream]

/-- When an element has failed, the reader is as it was when the attempt began. -/
theorem Arrives.consumes_nothing (h : setting.Arrives (setting.start reader memory) past state)
    {parent : Stack} {node : Node} {failure : Failure} {track : Track σ}
    (hfails : setting.Fails state parent node failure track) :
    ∃ begun earlier, BeganAt (state :: past) parent.frames begun earlier ∧
      parent = begun.attempting ∧ (∃ rest, begun.stack.top.rest = node :: rest) ∧
      track.reader = begun.track.reader := by
  rcases hfails.closes with ⟨hphase, rfl, ⟨rest, hrest⟩, hreader⟩ | ⟨hpop, horigin, hreader⟩
  · have hne : state.stack.top.rest ≠ [] := by rw [hrest]; exact List.cons_ne_nil _ _
    exact ⟨state, past, beganAt_self hphase hne, rfl, ⟨rest, hrest⟩, hreader⟩
  · obtain ⟨begun, earlier, hbegan, hparent, -, hback, -⟩ := h.exists_beganAt hpop horigin
    obtain ⟨rest, hrest⟩ := Stack.exists_rest_of_pop? hpop
    rw [hparent] at hrest
    exact ⟨begun, earlier, hbegan, hparent, ⟨rest, hrest⟩, hreader.trans hback⟩

/-- If the element at the cursor has matched before, the last match of it is what the run has
    just come from. -/
theorem Arrives.exists_matches (h : setting.Arrives (setting.start reader memory) past state)
    (hphase : state.phase = .matching) {node : Node} {rest : List Node}
    (hrest : state.stack.top.rest = node :: rest) (hpasses : 0 < state.stack.top.passes) :
    ∃ before parent, past.head? = some before ∧
      setting.Matches before parent node state.track := by
  cases h with
  | begin hbegin =>
      obtain ⟨nodes, room, hstack⟩ := stack_of_start hbegin
      rw [hstack] at hpasses
      exact absurd hpasses (Nat.lt_irrefl 0)
  | @step past before _ h hstep =>
      have hbrings := brings_step h.coherent
      rw [hstep] at hbrings
      generalize hnext : Step.next state = step at hbrings
      cases hbrings with
      | failed hfails =>
          unfold Stack.afterFailure at hnext
          split at hnext
          · cases hnext
            exact absurd hpasses (Nat.lt_irrefl 0)
          · split at hnext <;> cases hnext
            cases hphase
      | @matched parent other track hmatches =>
          obtain ⟨⟨rest', hcursor⟩, -⟩ := hmatches.closes
          unfold Stack.afterMatch at hnext
          split at hnext
          · split at hnext <;> cases hnext
            obtain ⟨rfl, -⟩ := List.cons.inj (hcursor.symm.trans hrest)
            exact ⟨before, parent, rfl, hmatches⟩
          · cases hnext
            exact absurd hpasses (Nat.lt_irrefl 0)
      | branch _ _ hpush | rule _ _ hpush =>
          cases hnext
          have htop := (List.cons.inj (Stack.frames_of_push? hpush)).1
          rw [htop] at hpasses
          exact absurd hpasses (Nat.lt_irrefl 0)
      | rejectedEnter | rejectedLeave =>
          cases hnext
          cases hphase
      | nextBranch =>
          cases hnext
          exact absurd hpasses (Nat.lt_irrefl 0)
      | ends => cases hnext

end Setting

/-- Elements that fail consume nothing.  Whatever the rules, the options, the listener and
    the tokens are, every step of a run ends an attempt in one of the ways there are, or is
    no end of one (`Setting.Brings`); and whenever an element fails, the reader, its opinion
    on line ends included, is as it was when the attempt began, and the frame that the
    element belongs to is, too.  So if that frame goes on, it does so right behind what
    matched before, which is the last match of the element itself if it has matched. -/
theorem RuleTable.failed_elements_consume_nothing (rules : RuleTable) (options : Options)
    (listener : Listener σ) (reader : Reader) (memory : σ) (past : List (State σ))
    (state : State σ)
    (h : (rules.setting options listener).Arrives
      (rules.firstStep options listener reader memory) past state) :
    let setting := rules.setting options listener
    setting.Brings state (setting.step state) ∧
    ∀ parent node failure track, setting.Fails state parent node failure track →
      setting.step state = parent.afterFailure node failure track ∧
      ∃ begun earlier, BeganAt (state :: past) parent.frames begun earlier ∧
        parent = begun.attempting ∧ begun.stack.top.rest.head? = some node ∧
        track.reader = begun.track.reader ∧
        (parent.top.absorbs node.modifiers = true →
          setting.step state = .matching (parent.withTop parent.top.advance) track) ∧
        (0 < parent.top.passes → ∃ before pass, earlier.head? = some before ∧
          setting.Matches before pass node begun.track) := by
  intro setting
  have harrives : setting.Arrives (setting.start (reader.withSkipLines (!rules.usesLineEnds))
    memory) past state := h
  refine ⟨Setting.brings_step harrives.coherent, fun parent node failure track hfails => ?_⟩
  obtain ⟨begun, earlier, hbegan, hparent, ⟨rest, hrest⟩, hreader⟩ :=
    harrives.consumes_nothing hfails
  refine ⟨hfails.step_eq, begun, earlier, hbegan, hparent, by rw [hrest]; rfl, hreader, ?_, ?_⟩
  · intro habsorbs
    rw [hfails.step_eq, Stack.afterFailure, if_pos habsorbs]
  · intro hpasses
    obtain ⟨later, hsplit, -⟩ := hbegan.since
    have hbegun := harrives.of_eq_append hsplit
    rw [hparent] at hpasses
    exact hbegun.exists_matches hbegan.phase_eq hrest hpasses

/-- The rule `ROOT := [ ID SYMBOL ]*`. -/
def RuleTable.pairs : RuleTable where
  rules :=
    [⟨rootName,
      [.alternation ⟨false, false, true, false⟩ .zero
        [[.terminal .plain .zero (.ofCategory .identifier),
          .terminal .plain .zero (.ofCategory .symbol)]] false], .zero⟩]

/-- The tokens of the text `a,b`, where the comma is a symbol. -/
def TokenStream.pairAndWord : TokenStream where
  tokens := #[⟨.beginning, "", ⟨0, 0⟩, 1, 1⟩, ⟨.identifier, "a", ⟨0, 1⟩, 1, 1⟩,
    ⟨.symbol, ",", ⟨1, 2⟩, 1, 2⟩, ⟨.identifier, "b", ⟨2, 3⟩, 1, 3⟩]
  ending := ⟨.ending, "", ⟨3, 3⟩, 1, 4⟩

/-- A second pair that is not complete leaves the reader right behind the first one. -/
theorem RuleTable.unfinished_pair_consumes_nothing :
    let setting := pairs.setting .default .acceptAll
    ∃ past state parent node failure track begun,
      setting.Arrives (pairs.firstStep .default .acceptAll ⟨.pairAndWord, 0, true⟩ ()) past
        state ∧
      setting.Fails state parent node failure track ∧ state.track.reader.position = 4 ∧
      parent.top.passes = 1 ∧ track.reader.position = 3 ∧ begun ∈ state :: past ∧
      parent = begun.attempting ∧ track.reader = begun.track.reader := by
  intro setting
  have hfails : ∃ past state parent node failure track,
      setting.Arrives (pairs.firstStep .default .acceptAll ⟨.pairAndWord, 0, true⟩ ()) past
        state ∧
      setting.Fails state parent node failure track ∧ state.track.reader.position = 4 ∧
      parent.top.passes = 1 ∧ track.reader.position = 3 :=
    ⟨_, _, _, _, _, _,
      .step (.step (.step (.step (.step (.step (.step (.begin rfl) rfl) rfl) rfl) rfl) rfl) rfl)
        rfl, .exhausted rfl rfl rfl, rfl, rfl, rfl⟩
  obtain ⟨past, state, parent, node, failure, track, harrives, hfails, hread, hpasses, hback⟩ :=
    hfails
  obtain ⟨-, hfailed⟩ := pairs.failed_elements_consume_nothing .default .acceptAll
    ⟨.pairAndWord, 0, true⟩ () past state harrives
  obtain ⟨-, begun, earlier, hbegan, hparent, -, hreader, -⟩ :=
    hfailed parent node failure track hfails
  obtain ⟨later, hsplit, -⟩ := hbegan.since
  have hmem : begun ∈ state :: past := by
    rw [hsplit]
    exact List.mem_append_right _ List.mem_cons_self
  exact ⟨past, state, parent, node, failure, track, begun, harrives, hfails, hread, hpasses,
    hback, hmem, hparent, hreader⟩

end TokenGrammar
