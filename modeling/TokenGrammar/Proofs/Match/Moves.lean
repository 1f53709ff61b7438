/-
  TokenGrammar.Proofs.Match.Moves

  What can happen to a track during a run.  Rules are opened and closed, failures
  are offered, events are told, a terminal takes the reader forward, and whatever
  has happened since some track can be undone by going back to where the reader
  stood then.  A run is a chain of such moves (`Setting.Leads`), so what each of
  them keeps is kept by every run.

  Main statements: matching by recursion makes no other moves
  (`Setting.leads_matchRoot`), and an element that fails leaves the reader as it
  was (`Setting.restores_matchNode`).
-/

import TokenGrammar.Proofs.Match.Recursion

namespace TokenGrammar

variable {σ : Type}

namespace Setting

/-- Whether a run that leaves the first track may come to leave the second one. -/
inductive Leads (setting : Setting σ) : Track σ → Track σ → Prop where
  | refl (track : Track σ) : Leads setting track track
  | trans {s t u : Track σ} (hst : Leads setting s t) (htu : Leads setting t u) :
      Leads setting s u
  | openRule (track : Track σ) (rule : String) : Leads setting track (track.openRule rule)
  | closeRule (track : Track σ) : Leads setting track track.closeRule
  | offer (track : Track σ) (position : Nat) (failure : Failure) :
      Leads setting track (track.offer position failure)
  | enter (track : Track σ) (rule : String) :
      Leads setting track (track.emit setting.listener (.enter rule)).2
  | leave (track : Track σ) (rule : String) :
      Leads setting track (track.emit setting.listener (.leave rule)).2
  | terminal {track : Track σ} {adjacent : Bool} {pattern : Terminal} {matched : Matched}
      {reader : Reader} (h : pattern.matchAt adjacent track.reader = .ok (matched, reader)) :
      Leads setting track ((track.withReader reader).emit setting.listener (.token matched)).2
  | rewind {s t : Track σ} (h : Leads setting s t) :
      Leads setting s (t.rewind setting.listener s.reader.checkpoint).2

/-- A run stays within one token stream. -/
theorem Leads.stream_eq {setting : Setting σ} {s t : Track σ} (h : setting.Leads s t) :
    t.reader.stream = s.reader.stream := by
  induction h with
  | refl | openRule | closeRule | offer | enter | leave => rfl
  | trans _ _ ihst ihtu => rw [ihtu, ihst]
  | terminal h => exact Terminal.stream_of_matchAt h
  | rewind _ ih => rw [Track.reader_rewind]; exact ih

/-- Going back after some moves puts the reader back to where it was. -/
theorem Leads.reader_rewind {setting : Setting σ} {s t : Track σ} (h : setting.Leads s t) :
    (t.rewind setting.listener s.reader.checkpoint).2.reader = s.reader := by
  rw [Track.reader_rewind]
  have hstream := h.stream_eq
  simp only [Reader.seek, Reader.checkpoint, hstream]

-- ============================================================================
-- Going back
-- ============================================================================

/-- A passage makes moves, and if it fails the reader is back. -/
structure Restores (setting : Setting σ) (track : Track σ) (passage : Passage σ) : Prop where
  leads : setting.Leads track passage.2
  reader_eq : ∀ failure, passage.1 = .failed failure → passage.2.reader = track.reader

theorem restores_aborted {setting : Setting σ} {s t : Track σ} {abort : Abort}
    (h : setting.Leads s t) : setting.Restores s (.aborted abort, t) :=
  ⟨h, fun _ hending => nomatch hending⟩

theorem restores_matched {setting : Setting σ} {s t : Track σ} (h : setting.Leads s t) :
    setting.Restores s (.matched, t) :=
  ⟨h, fun _ hending => nomatch hending⟩

theorem restores_putBack {setting : Setting σ} {s t : Track σ} {goOn : Track σ → Passage σ}
    (h : setting.Leads s t)
    (hgoOn : ∀ back : Track σ, setting.Leads s back → back.reader = s.reader →
      setting.Restores s (goOn back)) :
    setting.Restores s (setting.putBack s.reader.checkpoint t goOn) := by
  have hleads := h.rewind
  have hreader := h.reader_rewind
  unfold putBack
  rcases hrewind : t.rewind setting.listener s.reader.checkpoint with ⟨_ | refusal, back⟩
  all_goals rw [hrewind] at hleads hreader
  · exact hgoOn back hleads hreader
  · exact restores_aborted hleads

theorem restores_failAt {setting : Setting σ} {s t : Track σ} {failure : Failure}
    (h : setting.Leads s t) :
    setting.Restores s (setting.failAt s.reader.checkpoint failure t) :=
  restores_putBack h fun _ hleads hreader => ⟨hleads, fun _ _ => hreader⟩

/-- Whatever a listener answers to an event, the telling is one move. -/
theorem restores_tell {setting : Setting σ} {s t : Track σ} {event : Event}
    {rejected : Failure → Track σ → Passage σ} {accepted : Track σ → Passage σ}
    (h : setting.Leads s (t.emit setting.listener event).2)
    (hrejected : ∀ (failure : Failure) (told : Track σ), told.reader = t.reader →
      setting.Leads s told → setting.Restores s (rejected failure told))
    (haccepted : ∀ told : Track σ, told.reader = t.reader →
      setting.Leads s told → setting.Restores s (accepted told)) :
    setting.Restores s (setting.tell event t rejected accepted) := by
  have hreader := Track.reader_emit setting.listener event t
  unfold tell
  rcases hemit : t.emit setting.listener event with ⟨_ | refusal | refusal, told⟩
  all_goals rw [hemit] at h hreader
  · exact haccepted told hreader h
  · exact hrejected _ told hreader h
  · exact restores_aborted h

-- ============================================================================
-- Terminals, rules and alternations
-- ============================================================================

theorem restores_matchTerminal (setting : Setting σ) (adjacent : Bool) (pattern : Terminal)
    (track : Track σ) :
    setting.Restores track (setting.matchTerminal adjacent pattern track) := by
  unfold matchTerminal
  split
  · exact ⟨.offer _ _ _, fun _ _ => rfl⟩
  · next matched reader hmatch =>
    apply restores_tell (.terminal hmatch)
    · intro failure told _ htold
      exact restores_failAt (htold.trans (.offer _ _ _))
    · intro told _ htold
      exact restores_matched htold

theorem restores_leaveRule {setting : Setting σ} {name : String} {s : Track σ}
    {passage : Passage σ} (h : setting.Leads s passage.2) :
    setting.Restores s (setting.leaveRule name s.reader.checkpoint passage) := by
  rcases passage with ⟨_ | failure | abort, t⟩
  · rw [leaveRule]
    apply restores_tell (h.trans (.leave t name))
    · intro failure told _ htold
      exact restores_failAt (htold.trans (.offer _ _ _))
    · intro told _ htold
      exact restores_matched htold
  · exact restores_failAt h
  · exact restores_aborted h

theorem restores_closeRule {setting : Setting σ} {track : Track σ} {passage : Passage σ}
    (h : setting.Restores track passage) : setting.Restores track passage.closeRule := by
  obtain ⟨hleads, hreader⟩ := h
  rcases passage with ⟨_ | failure | abort, after⟩
  · exact restores_matched (hleads.trans (.closeRule _))
  · exact ⟨hleads.trans (.closeRule _), fun _ _ => hreader failure rfl⟩
  · exact restores_aborted hleads

theorem restores_matchRule {setting : Setting σ} {name : String} {body : Track σ → Passage σ}
    (hbody : ∀ track : Track σ, setting.Leads track (body track).2) (track : Track σ) :
    setting.Restores track (setting.matchRule name body track) := by
  unfold matchRule
  apply restores_closeRule
  apply restores_tell ((Leads.openRule track name).trans (.enter _ _))
  · intro failure told _ htold
    exact restores_failAt (htold.trans (.offer _ _ _))
  · intro told _ htold
    exact restores_leaveRule (htold.trans (hbody told))

theorem restores_matchBranches {setting : Setting σ} {body : List Node → Track σ → Passage σ}
    (hbody : ∀ (nodes : List Node) (track : Track σ), setting.Leads track (body nodes track).2)
    (branches : List (List Node)) {failed : List Failure} {s t : Track σ}
    (h : setting.Leads s t) (hreader : t.reader = s.reader) :
    setting.Restores s (setting.matchBranches s.reader.checkpoint body failed branches t).1 := by
  induction branches generalizing failed t with
  | nil => exact ⟨h, fun _ _ => hreader⟩
  | cons branch later ih =>
      have hleads := h.trans (hbody branch t)
      unfold matchBranches
      rcases hpassage : body branch t with ⟨_ | failure | abort, u⟩
      all_goals rw [hpassage] at hleads
      · exact restores_matched hleads
      · have hback := hleads.rewind
        have hrestored := hleads.reader_rewind
        rcases hrewind : u.rewind setting.listener s.reader.checkpoint with ⟨_ | refusal, back⟩
        all_goals
          rw [hrewind] at hback hrestored
          simp only [hrewind]
        · exact ih hback hrestored
        · exact restores_aborted hback
      · exact restores_aborted hleads

theorem restores_takeBranch {setting : Setting σ} {onceEach : Bool} {taken : List Nat}
    {s : Track σ} {chosen : Passage σ × Nat} (h : setting.Restores s chosen.1) :
    setting.Restores s (setting.takeBranch s.reader.checkpoint onceEach taken chosen).1 := by
  rcases chosen with ⟨⟨_ | failure | abort, after⟩, index⟩
  · rw [takeBranch]
    split
    · split
      · refine restores_putBack h.leads fun back hback hreader => ?_
        exact ⟨hback.trans (.offer _ _ _), fun _ _ => hreader⟩
      · exact h
    · exact h
  · exact h
  · exact h

-- ============================================================================
-- Elements and sequences
-- ============================================================================

theorem leads_matchElement {setting : Setting σ} {attempt : List Nat → Track σ → Attempt σ}
    (hattempt : ∀ (taken : List Nat) (track : Track σ),
      setting.Restores track (attempt taken track).1) (node : Node) (passes : Nat)
    (taken : List Nat) (track : Track σ) :
    setting.Leads track (matchElement attempt node passes taken track).2 := by
  have h := (hattempt taken track).leads
  unfold matchElement
  rcases hresult : attempt taken track with ⟨⟨_ | failure | abort, after⟩, taken'⟩
  all_goals
    rw [hresult] at h
    simp only
  · split
    · split
      · have hrest := leads_matchElement hattempt node (passes + 1) taken' after
        exact h.trans hrest
      · exact h
    · exact h
  · split
    · exact h
    · split <;> exact h
  · exact h
termination_by track.reader.remaining

theorem leads_matchSequence {setting : Setting σ}
    {attempt : Node → List Nat → Track σ → Attempt σ}
    (hattempt : ∀ (node : Node) (taken : List Nat) (track : Track σ),
      setting.Restores track (attempt node taken track).1) (nodes : List Node)
    (track : Track σ) : setting.Leads track (matchSequence attempt nodes track).2 := by
  induction nodes generalizing track with
  | nil => exact .refl track
  | cons node rest ih =>
      have h := leads_matchElement (hattempt node) node 0 [] track
      unfold matchSequence
      rcases hresult : matchElement (attempt node) node 0 [] track with ⟨_ | failure | abort, after⟩
      all_goals rw [hresult] at h
      · exact h.trans (ih after)
      · exact h
      · exact h

/-- Attempting an element makes moves, and if it fails the reader is back. -/
theorem restores_matchNode (setting : Setting σ) (room : Nat) (node : Node) (taken : List Nat)
    (track : Track σ) : setting.Restores track (setting.matchNode room node taken track).1 := by
  induction room generalizing node taken track with
  | zero =>
      unfold matchNode
      split
      · exact setting.restores_matchTerminal _ _ track
      · split <;> exact restores_aborted (.refl track)
      · exact ⟨.refl track, fun _ _ => rfl⟩
      · exact restores_aborted (.refl track)
  | succ room ih =>
      have hbody := leads_matchSequence ih
      unfold matchNode
      split
      · exact setting.restores_matchTerminal _ _ track
      · split
        · exact restores_aborted (.refl track)
        · next nodes _ => exact restores_matchRule (hbody nodes) track
      · exact ⟨.refl track, fun _ _ => rfl⟩
      · exact restores_takeBranch (restores_matchBranches hbody _ (.refl track) rfl)

/-- A whole run makes moves, and if the rule `ROOT` fails the reader is back. -/
theorem restores_matchRoot (setting : Setting σ) (reader : Reader) (memory : σ) :
    setting.Restores ⟨reader, [], none, memory⟩ (setting.matchRoot reader memory) := by
  let track : Track σ := ⟨reader, [], none, memory⟩
  unfold matchRoot
  dsimp only
  split
  · exact restores_aborted (.refl track)
  · exact restores_aborted (.refl track)
  · next nodes room hnodes hroom =>
    have hbody := leads_matchSequence (setting.restores_matchNode room) nodes
    refine @restores_tell _ _ track _ _ _ _ ((Leads.openRule track rootName).trans (.enter _ _))
      ?_ ?_
    · intro failure told _ htold
      exact restores_failAt htold
    · intro told _ htold
      exact restores_leaveRule (htold.trans (hbody told))

/-- A whole run makes moves. -/
theorem leads_matchRoot (setting : Setting σ) (reader : Reader) (memory : σ) :
    setting.Leads ⟨reader, [], none, memory⟩ (setting.matchRoot reader memory).2 :=
  (setting.restores_matchRoot reader memory).leads

end Setting

end TokenGrammar
