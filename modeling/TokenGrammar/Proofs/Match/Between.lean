/-
  TokenGrammar.Proofs.Match.Between

  What a run does between the beginning of an attempt and its end: it makes moves from where
  it was then (`Setting.Arrives.comesFrom`), because a frame that fails goes back to where an
  attempt began that is not over.  So when the run is back there, what survives of the
  matches that it has told about is what survived then
  (`Setting.Arrives.consumed_of_rewind`).
-/

import TokenGrammar.Proofs.Match.Beginnings
import TokenGrammar.Proofs.Match.Survivors

namespace TokenGrammar

variable {σ : Type}

-- ============================================================================
-- The moves of a step
-- ============================================================================

theorem Stack.track_of_afterFailure {stack : Stack} {node : Node} {failure : Failure}
    {track : Track σ} {after : State σ} (h : stack.afterFailure node failure track = .next after) :
    after.track = track := by
  unfold afterFailure at h
  split at h
  · cases h
    rfl
  · split at h <;> cases h
    rfl

theorem Stack.track_of_afterMatch {stack : Stack} {node : Node} {track : Track σ}
    {after : State σ} (h : stack.afterMatch node track = .next after) : after.track = track := by
  unfold afterMatch at h
  split at h
  · split at h <;> cases h
    rfl
  · cases h
    rfl

namespace Setting

variable {setting : Setting σ} {state after : State σ}

theorem leads_scan {pattern : Terminal} {adjacent : Bool} {track told : Track σ}
    {matched : Matched} {scanned : Reader} {reply : Reply}
    (hmatch : pattern.scan adjacent track.reader = .ok matched scanned)
    (htold : (track.withReader scanned).emit setting.listener (.token matched) = (reply, told)) :
    setting.Leads track told := by
  have hfound : pattern.matchAt adjacent track.reader = .ok (matched, scanned) := by
    rw [Terminal.matchAt_eq_outcome, hmatch]
    rfl
  have hleads : setting.Leads track _ := .terminal hfound
  rw [htold] at hleads
  exact hleads

theorem leads_enter {track told : Track σ} {name : String} {reply : Reply}
    (htold : (track.openRule name).emit setting.listener (.enter name) = (reply, told)) :
    setting.Leads track told := by
  have hleads : setting.Leads track _ := (Leads.openRule track name).trans (.enter _ name)
  rw [htold] at hleads
  exact hleads

theorem leads_leave {track told : Track σ} {name : String} {reply : Reply}
    (htold : track.emit setting.listener (.leave name) = (reply, told)) :
    setting.Leads track told := by
  have hleads : setting.Leads track _ := .leave track name
  rw [htold] at hleads
  exact hleads

/-- An element that fails when a frame does leaves the track to go back, and any other one
    that fails or matches makes moves. -/
theorem Fails.leads {parent : Stack} {node : Node} {failure : Failure} {track : Track σ}
    (h : setting.Fails state parent node failure track) :
    setting.Leads state.track track ∨
      (state.stack.top.origin ≠ .root ∧ state.stack.pop? = some (parent, node) ∧
        setting.Leads (state.track.rewind setting.listener state.stack.top.entry).2 track) := by
  cases h with
  | @miss _ track _ _ _ _ _ scanned hrest hmiss =>
      have honward : track.reader.Onward scanned := Terminal.onward_of_scan hmiss
      rw [honward.seek_checkpoint]
      exact .inl (.offer _ _ _)
  | @rejectedToken _ track told _ _ _ _ _ matched _ refusal hrest hmatch hrejected hback =>
      have htold : setting.Leads track (told.offer matched.position (.rejected refusal)) :=
        (leads_scan hmatch hrejected).trans (.offer _ _ _)
      have hundone := htold.rewind
      rw [hback] at hundone
      exact .inl hundone
  | emptyAlternation hrest => exact .inl (.refl _)
  | rule horigin hpop hback =>
      refine .inr ⟨by simp [horigin], hpop, ?_⟩
      rw [hback]
      exact .closeRule _
  | exhausted horigin hpop hback =>
      refine .inr ⟨by simp [horigin], hpop, ?_⟩
      rw [hback]
      exact .refl _
  | alreadySet hrest horigin hpop honce htaken hback =>
      refine .inr ⟨by simp [horigin], hpop, ?_⟩
      rw [hback]
      exact .offer _ _ _

theorem Matches.leads {parent : Stack} {node : Node} {track : Track σ}
    (h : setting.Matches state parent node track) : setting.Leads state.track track := by
  cases h with
  | terminal hrest hmatch haccepted => exact leads_scan hmatch haccepted
  | rule hrest horigin haccepted hpop => exact (leads_leave haccepted).trans (.closeRule _)
  | branch | newBranch => exact .refl _

/-- A step makes moves, or goes back to where the top frame began and makes moves from
    there, and that frame is not kept as it is. -/
theorem Brings.leads (h : setting.Brings state (.next after)) :
    setting.Leads state.track after.track ∨
      (state.stack.top.origin ≠ .root ∧ after.stack.frames.length ≤ state.stack.frames.length ∧
        setting.Leads (state.track.rewind setting.listener state.stack.top.entry).2
          after.track) := by
  generalize hstep : Step.next after = step at h
  cases h with
  | failed hfails =>
      rw [Stack.track_of_afterFailure hstep.symm]
      rcases hfails.leads with hleads | ⟨horigin, hpop, hleads⟩
      · exact .inl hleads
      · refine .inr ⟨horigin, ?_, hleads⟩
        show after.stack.below.length + 1 ≤ state.stack.below.length + 1
        rw [Stack.below_of_afterFailure hstep.symm, Stack.frames_of_pop? hpop]
        exact Nat.succ_le_succ (Nat.le_succ _)
  | matched hmatches =>
      rw [Stack.track_of_afterMatch hstep.symm]
      exact .inl hmatches.leads
  | branch =>
      cases hstep
      exact .inl (.refl _)
  | rule _ _ _ haccepted =>
      cases hstep
      exact .inl (leads_enter haccepted)
  | rejectedEnter _ _ _ hrejected =>
      cases hstep
      exact .inl ((leads_enter hrejected).trans (.offer _ _ _))
  | rejectedLeave _ hrejected =>
      cases hstep
      exact .inl ((leads_leave hrejected).trans (.offer _ _ _))
  | nextBranch horigin hback =>
      cases hstep
      refine .inr ⟨by simp [horigin], Nat.le_refl _, ?_⟩
      rw [hback]
      exact .refl _
  | ends => cases hstep

-- ============================================================================
-- The moves of a run
-- ============================================================================

variable {reader : Reader} {memory : σ} {past : List (State σ)}

theorem leads_start (h : setting.start reader memory = .next state) :
    setting.Leads ⟨reader, [], none, memory⟩ state.track := by
  unfold start at h
  dsimp only at h
  split at h
  · cases h
  · cases h
  · unfold emitThen at h
    split at h <;> cases h
    all_goals next hemit => exact leads_enter hemit

/-- Moves lead to a state from where the run began, and from every state of it since when
    there have been more frames. -/
structure ComesFrom (setting : Setting σ) (initial : Track σ) (past : List (State σ))
    (state : State σ) : Prop where
  initial : setting.Leads initial state.track
  between : ∀ later begun earlier, state :: past = later ++ begun :: earlier →
    (∀ between ∈ later, begun.stack.frames.length < between.stack.frames.length) →
    setting.Leads begun.track state.track

/-- Moves from a state lead on from where they led to it, if there have been no fewer frames
    since than there are now. -/
theorem ComesFrom.goOn {initial : Track σ} {since past : List (State σ)} {before : State σ}
    (h : setting.ComesFrom initial past before) (hmoves : setting.Leads before.track state.track)
    (hsince : ∀ between ∈ since, state.stack.frames.length ≤ between.stack.frames.length) :
    setting.ComesFrom initial (since ++ before :: past) state := by
  refine ⟨h.initial.trans hmoves, fun later begun earlier hsplit hlater => ?_⟩
  cases later with
  | nil =>
      obtain ⟨rfl, -⟩ := List.cons.inj hsplit
      exact .refl _
  | cons last later =>
      obtain ⟨rfl, hpast⟩ := List.cons.inj hsplit
      obtain ⟨hdeeper, hlater⟩ := List.forall_mem_cons.1 hlater
      rcases exists_of_append_eq hpast with ⟨middle, rfl, hmiddle⟩ | ⟨middle, rfl, -⟩
      · refine (h.between middle begun earlier hmiddle fun between hmem => ?_).trans hmoves
        exact hlater between (List.mem_append_right _ hmem)
      · -- Since that state there have been no more frames all the time.
        have hkept := hsince begun (List.mem_append_right later List.mem_cons_self)
        exact absurd hdeeper (Nat.not_lt.2 hkept)

theorem comesFrom_start (h : setting.start reader memory = .next state) :
    setting.ComesFrom ⟨reader, [], none, memory⟩ [] state := by
  refine ⟨leads_start h, fun later begun earlier hsplit _ => ?_⟩
  obtain ⟨rfl, hsplit⟩ | ⟨later, rfl, hnil⟩ := List.cons_eq_append_iff.1 hsplit
  · obtain ⟨rfl, -⟩ := List.cons.inj hsplit
    exact .refl _
  · exact absurd hnil.symm (List.append_ne_nil_of_right_ne_nil _ (List.cons_ne_nil _ _))

/-- Every state of a run comes from where the run began. -/
theorem Arrives.comesFrom (h : setting.Arrives (setting.start reader memory) past state) :
    setting.ComesFrom ⟨reader, [], none, memory⟩ past state := by
  -- A step may go back to any state that waits, so earlier states than the last are needed.
  induction hlength : past.length using Nat.strong_induction_on generalizing past state with
  | h length ih =>
    cases h with
    | begin hbegin => exact comesFrom_start hbegin
    | @step past before _ harrives hstep =>
        have hbefore := ih _ (by rw [← hlength]; exact Nat.lt_succ_self _) harrives rfl
        have hbrings := brings_step harrives.coherent
        rw [hstep] at hbrings
        rcases hbrings.leads with hmoves | ⟨horigin, hframes, hback⟩
        · exact hbefore.goOn hmoves (List.forall_mem_nil _)
        · obtain ⟨parent, node, hcloses⟩ := harrives.coherent.exists_closes horigin
          obtain ⟨opened, first, hbegan, hparent, -, -, hentry⟩ :=
            harrives.exists_beganAt hcloses.pop?_eq horigin
          obtain ⟨since, hopened, hsince⟩ := hbegan.since
          have hmoves : setting.Leads opened.track state.track := by
            have hdeeper : ∀ between ∈ since,
                opened.stack.frames.length < between.stack.frames.length := by
              rw [show opened.stack.frames.length = parent.frames.length by rw [hparent]; rfl]
              exact hsince
            have hrewound := (hbefore.between since opened first hopened hdeeper).rewind
            rw [← hentry] at hrewound
            exact hrewound.trans hback
          have hearlier : first.length < length := by
            have hlengths := congrArg List.length hopened
            simp only [List.length_append, List.length_cons] at hlengths hlength
            omega
          have hfirst := ih _ hearlier (harrives.of_eq_append hopened) rfl
          rw [hopened]
          refine hfirst.goOn hmoves fun between hmem => ?_
          calc state.stack.frames.length ≤ before.stack.frames.length := hframes
            _ = parent.frames.length + 1 :=
              congrArg (·.length + 1) (Stack.frames_of_pop? hcloses.pop?_eq)
            _ ≤ between.stack.frames.length := hsince between hmem

end Setting

-- ============================================================================
-- What survives
-- ============================================================================

namespace Setting

variable {setting : Setting (σ × List (Context × Event))} {origin : Reader}
  {s t : Track (σ × List (Context × Event))}

/-- When a run is back where it was, what survives is what survived then. -/
theorem Leads.consumed_eq (hrecords : setting.Records) (htiles : origin.stream.Tiles)
    (h : setting.Leads s t) (hs : origin.Sound s.reader s.history)
    (hle : t.reader.position ≤ s.reader.position) : consumed t.history = consumed s.history := by
  obtain ⟨ht, hst⟩ := h.sound hrecords htiles hs
  obtain ⟨since, hsince, hbehind⟩ := hst.consumed_eq
  have hnone : since = [] := by
    refine List.eq_nil_iff_forall_not_mem.2 fun entry hentry => ?_
    have hfrom := hbehind entry hentry
    have hbefore := (ht.behind entry (by rw [hsince]; exact List.mem_append_right _ hentry)).1
    omega
  rw [hsince, hnone, List.append_nil]

variable {reader : Reader} {memory : σ} {past : List (State (σ × List (Context × Event)))}
  {state begun : State (σ × List (Context × Event))} {frames : List Frame}
  {earlier : List (State (σ × List (Context × Event)))}

/-- When a run goes back to where an attempt began, what survives is what survived then. -/
theorem Arrives.consumed_of_rewind (hrecords : setting.Records) (htiles : reader.stream.Tiles)
    (hlast : reader.position ≤ reader.stream.last)
    (h : setting.Arrives (setting.start reader (memory, [])) past state)
    (hbegan : BeganAt (state :: past) frames begun earlier) :
    consumed (state.track.rewind setting.listener begun.track.reader.checkpoint).2.history =
      consumed begun.track.history := by
  obtain ⟨later, hsplit, hlater⟩ := hbegan.since
  have hdepth : begun.stack.frames.length = frames.length := by
    rw [← hbegan.frames_eq]
    rfl
  rw [← hdepth] at hlater
  have hleads : setting.Leads begun.track state.track :=
    h.comesFrom.between later begun earlier hsplit hlater
  have hsound : reader.Sound begun.track.reader begun.track.history :=
    ((h.of_eq_append hsplit).comesFrom.initial.sound hrecords htiles (Reader.sound_start reader hlast)).1
  refine hleads.rewind.consumed_eq hrecords htiles hsound ?_
  rw [hleads.reader_rewind]

end Setting

end TokenGrammar
