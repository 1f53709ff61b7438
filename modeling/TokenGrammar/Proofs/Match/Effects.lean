/-
  TokenGrammar.Proofs.Match.Effects

  What matching does to a track, proved once for all of it.  An effect relates the track
  that a passage begins with to the one that it leaves.  If an effect is kept by the few
  things that matching does by itself — it offers failures, goes back, takes a terminal,
  opens and closes a rule (`Setting.Upholds`) — then every element has it, however
  elements are nested and repeated (`Setting.Upholds.matchNode`,
  `Setting.Upholds.matchSequence`).

  An effect may ask for a property of the elements, as long as that property passes on
  from an element to what it holds or refers to (`RuleTable.Passes`).
-/

import TokenGrammar.Proofs.Grammar.Visits
import TokenGrammar.Proofs.Match.Recursion

namespace TokenGrammar

variable {σ : Type}

/-- What a passage does to the track that it begins with: how that is related to the track
    that it leaves, and how if it stops the run. -/
structure Effect (σ : Type) where
  leads : Track σ → Track σ → Prop
  stops : Track σ → Abort → Track σ → Prop

/-- Whether a passage that begins with a track has an effect. -/
def Effect.Holds (effect : Effect σ) (s : Track σ) : Passage σ → Prop
  | (.matched, t) => effect.leads s t
  | (.failed _, t) => effect.leads s t
  | (.aborted abort, t) => effect.stops s abort t

/-- A passage has an effect if what it goes on with does. -/
theorem Effect.Holds.resume {effect : Effect σ} {s : Track σ} {passage : Passage σ}
    {rejected : Failure → Track σ → Passage σ} {accepted : Track σ → Passage σ}
    (h : effect.Holds s passage)
    (hrejected : ∀ failure t, effect.leads s t → effect.Holds s (rejected failure t))
    (haccepted : ∀ t, effect.leads s t → effect.Holds s (accepted t)) :
    effect.Holds s (passage.resume rejected accepted) := by
  rcases passage with ⟨_ | failure | abort, t⟩
  · exact haccepted t h
  · exact hrejected failure t h
  · exact h

namespace Setting

/-- Whether an effect carries over from one thing that matching does to the next, from
    failures that are offered on the way and to going back. -/
structure Carries (setting : Setting σ) (effect : Effect σ) : Prop where
  refl (s : Track σ) : effect.leads s s
  trans {s t u : Track σ} (hst : effect.leads s t) (htu : effect.leads t u) : effect.leads s u
  halt {s t u : Track σ} {abort : Abort} (hst : effect.leads s t) (htu : effect.stops t abort u) :
    effect.stops s abort u
  offer (s : Track σ) (position : Nat) (failure : Failure) :
    effect.leads s (s.offer position failure)
  /-- Going back to where the passage began. -/
  rewind {s t : Track σ} (hst : effect.leads s t) :
    effect.Holds s (setting.wentBack s.reader.checkpoint t)

/-- Whether an effect does not mind which events are told. -/
structure Tells (setting : Setting σ) (effect : Effect σ) : Prop
    extends setting.Carries effect where
  tell (s : Track σ) (event : Event) : effect.Holds s (setting.told event s)

/-- Whether an effect does not mind which rules are open either. -/
structure Disregards (setting : Setting σ) (effect : Effect σ) : Prop
    extends setting.Tells effect where
  openRule (s : Track σ) (rule : String) : effect.leads s (s.openRule rule)
  closeRule (s : Track σ) : effect.leads s s.closeRule

/-- Whether the things that matching does by itself have an effect, where all elements are
    allowed ones. -/
structure Upholds (setting : Setting σ) (allowed : Node → Prop) (effect : Effect σ) : Prop
    extends setting.Carries effect where
  /-- Telling a terminal that matches. -/
  token {s : Track σ} {modifiers : Modifiers} {span : Span} {pattern : Terminal}
    {matched : Matched} {reader : Reader} (hallowed : allowed (.terminal modifiers span pattern))
    (hmatch : pattern.matchAt modifiers.adjacent s.reader = .ok (matched, reader)) :
    effect.Holds s (setting.told (.token matched) (s.withReader reader))
  /-- Matching a rule, if what it holds has the effect. -/
  rule (s : Track σ) {modifiers : Modifiers} {span : Span} {name : String}
    {body : Track σ → Passage σ} (hallowed : allowed (.ref modifiers span name))
    (hbody : ∀ t, effect.Holds t (body t)) : effect.Holds s (setting.matchRule name body s)
  undefinedRule (s : Track σ) {modifiers : Modifiers} {span : Span} {name : String}
    (hallowed : allowed (.ref modifiers span name)) (hnone : setting.rules.nodes? name = none) :
    effect.stops s (.undefinedRule name) s
  recursionLimit (s : Track σ) : effect.stops s (.recursionLimit setting.limit) s
  fatalElement (s : Track σ) {node : Node} (failure : Failure) (hallowed : allowed node)
    (hfatal : node.modifiers.fatal = true) : effect.stops s (.fatalElement failure) s
  emptyRepetition {s t : Track σ} {node : Node} (hallowed : allowed node)
    (hrepeated : node.modifiers.repeated = true) (hst : effect.leads s t)
    (hnot : ¬t.reader.remaining < s.reader.remaining) :
    effect.stops t (.emptyRepetition node) t

variable {setting : Setting σ} {allowed : Node → Prop} {effect : Effect σ}

-- ============================================================================
-- Passages one after the other
-- ============================================================================

namespace Carries

/-- What follows a passage that has an effect. -/
theorem holds_trans (h : setting.Carries effect) {s t : Track σ} {passage : Passage σ}
    (hst : effect.leads s t) (hpassage : effect.Holds t passage) : effect.Holds s passage := by
  rcases passage with ⟨_ | failure | abort, u⟩
  · exact h.trans hst hpassage
  · exact h.trans hst hpassage
  · exact h.halt hst hpassage

theorem putBack (h : setting.Carries effect) {s t : Track σ} {goOn : Track σ → Passage σ}
    (hst : effect.leads s t)
    (hgoOn : ∀ back, effect.leads s back → effect.Holds s (goOn back)) :
    effect.Holds s (setting.putBack s.reader.checkpoint t goOn) := by
  rw [putBack_eq_resume]
  exact (h.rewind hst).resume (fun _ _ hback => hback) hgoOn

theorem failAt (h : setting.Carries effect) {s t : Track σ} (failure : Failure)
    (hst : effect.leads s t) :
    effect.Holds s (setting.failAt s.reader.checkpoint failure t) :=
  h.putBack hst fun _ hback => hback

end Carries

-- ============================================================================
-- Rules
-- ============================================================================

namespace Tells

theorem leaveRule (h : setting.Tells effect) (name : String) {s : Track σ}
    {passage : Passage σ} (hpassage : effect.Holds s passage) :
    effect.Holds s (setting.leaveRule name s.reader.checkpoint passage) := by
  rw [leaveRule_eq_resume]
  refine hpassage.resume (fun failure t ht => h.failAt failure ht) fun t ht => ?_
  rw [tell_eq_resume]
  refine (h.holds_trans ht (h.tell t (.leave name))).resume ?_ fun told htold => htold
  exact fun failure told htold => h.failAt failure (h.trans htold (h.offer told _ _))

/-- Entering a rule that is open, matching what it holds and leaving it. -/
theorem enterRule (h : setting.Tells effect) (name : String) {body : Track σ → Passage σ}
    (hbody : ∀ t, effect.Holds t (body t)) {s : Track σ}
    {rejected : Failure → Track σ → Passage σ}
    (hrejected : ∀ failure told, effect.leads s told → effect.Holds s (rejected failure told)) :
    effect.Holds s (setting.tell (.enter name) s rejected fun told =>
      setting.leaveRule name s.reader.checkpoint (body told)) := by
  rw [tell_eq_resume]
  refine (h.tell s (.enter name)).resume hrejected ?_
  exact fun told htold => h.leaveRule name (h.holds_trans htold (hbody told))

/-- A rule has the effect from when it is opened until it is closed. -/
theorem matchRule (h : setting.Tells effect) (name : String) {body : Track σ → Passage σ}
    (hbody : ∀ t, effect.Holds t (body t)) (s : Track σ) :
    ∃ passage, setting.matchRule name body s = passage.closeRule ∧
      effect.Holds (s.openRule name) passage :=
  ⟨_, rfl, h.enterRule name hbody (s := s.openRule name) fun failure told htold =>
    h.failAt failure (h.trans htold (h.offer told told.reader.significantPosition failure))⟩

end Tells

/-- A rule has the effect if what it holds does. -/
theorem Disregards.matchRule (h : setting.Disregards effect) (name : String)
    {body : Track σ → Passage σ} (hbody : ∀ t, effect.Holds t (body t)) (s : Track σ) :
    effect.Holds s (setting.matchRule name body s) := by
  obtain ⟨passage, hpassage, hopened⟩ := h.toTells.matchRule name hbody s
  rw [hpassage, Passage.closeRule_eq_resume]
  exact (h.holds_trans (h.openRule s name) hopened).resume
    (fun _ t ht => h.trans ht (h.closeRule t)) fun t ht => h.trans ht (h.closeRule t)

namespace Upholds

-- ============================================================================
-- Terminals and alternations
-- ============================================================================

theorem matchTerminal (h : setting.Upholds allowed effect) {modifiers : Modifiers} {span : Span}
    {pattern : Terminal} (hallowed : allowed (.terminal modifiers span pattern)) (s : Track σ) :
    effect.Holds s (setting.matchTerminal modifiers.adjacent pattern s) := by
  unfold Setting.matchTerminal
  split
  · exact h.offer s _ _
  · next matched reader hmatch =>
    rw [tell_eq_resume]
    refine (h.token hallowed hmatch).resume ?_ fun told htold => htold
    exact fun failure told htold => h.failAt failure (h.trans htold (h.offer told _ _))

theorem matchBranches (h : setting.Upholds allowed effect) {body : List Node → Track σ → Passage σ}
    {branches : List (List Node)}
    (hbody : ∀ branch ∈ branches, ∀ t, effect.Holds t (body branch t)) {failed : List Failure}
    {s t : Track σ} (hst : effect.leads s t) :
    effect.Holds s (setting.matchBranches s.reader.checkpoint body failed branches t).1 := by
  induction branches generalizing failed t with
  | nil => exact hst
  | cons branch later ih =>
      obtain ⟨hbranch, hlater⟩ := List.forall_mem_cons.1 hbody
      have hpassage := h.holds_trans hst (hbranch t)
      rw [matchBranches_cons]
      rcases hresult : body branch t with ⟨_ | failure | abort, u⟩
      all_goals rw [hresult] at hpassage
      · exact hpassage
      · have hback := h.rewind hpassage
        rcases hrewind : setting.wentBack s.reader.checkpoint u with ⟨_ | failure | abort, back⟩
        all_goals
          rw [hrewind] at hback
          simp only [hrewind]
        · exact ih hlater hback
        · exact hback
        · exact hback
      · exact hpassage

theorem takeBranch (h : setting.Upholds allowed effect) (onceEach : Bool) (taken : List Nat)
    {s : Track σ} {chosen : Passage σ × Nat} (hchosen : effect.Holds s chosen.1) :
    effect.Holds s (setting.takeBranch s.reader.checkpoint onceEach taken chosen).1 := by
  rcases chosen with ⟨⟨_ | failure | abort, t⟩, index⟩
  · rw [Setting.takeBranch]
    split
    · split
      · exact h.putBack hchosen fun back hback => h.trans hback (h.offer back _ _)
      · exact hchosen
    · exact hchosen
  · exact hchosen
  · exact hchosen

-- ============================================================================
-- Elements and sequences
-- ============================================================================

theorem matchElement (h : setting.Upholds allowed effect)
    {attempt : List Nat → Track σ → Attempt σ} {node : Node} (hallowed : allowed node)
    (hattempt : ∀ (taken : List Nat) (t : Track σ), effect.Holds t (attempt taken t).1)
    (passes : Nat) (taken : List Nat) (s : Track σ) :
    effect.Holds s (Setting.matchElement attempt node passes taken s) := by
  have hpassage := hattempt taken s
  unfold Setting.matchElement
  rcases hresult : attempt taken s with ⟨⟨_ | failure | abort, t⟩, taken'⟩
  all_goals
    rw [hresult] at hpassage
    simp only
  · split
    · next hrepeated =>
      split
      · exact h.holds_trans hpassage (h.matchElement hallowed hattempt (passes + 1) taken' t)
      · next hnot => exact h.halt hpassage (h.emptyRepetition hallowed hrepeated hpassage hnot)
    · exact hpassage
  · split
    · exact hpassage
    · split
      · next hfatal => exact h.halt hpassage (h.fatalElement t failure hallowed hfatal)
      · exact hpassage
  · exact hpassage
termination_by s.reader.remaining

theorem matchSequence (h : setting.Upholds allowed effect)
    {attempt : Node → List Nat → Track σ → Attempt σ} {nodes : List Node}
    (hallowed : ∀ node ∈ nodes, allowed node)
    (hattempt : ∀ node, allowed node → ∀ (taken : List Nat) (t : Track σ),
      effect.Holds t (attempt node taken t).1) (s : Track σ) :
    effect.Holds s (Setting.matchSequence attempt nodes s) := by
  induction nodes generalizing s with
  | nil => exact h.refl s
  | cons node rest ih =>
      obtain ⟨hnode, hrest⟩ := List.forall_mem_cons.1 hallowed
      rw [matchSequence_cons]
      refine (h.matchElement hnode (hattempt node hnode) 0 [] s).resume (fun _ _ ht => ht) ?_
      exact fun t ht => h.holds_trans ht (ih hrest t)

/-- Attempting an element has every effect that matching upholds. -/
theorem matchNode (h : setting.Upholds allowed effect) (hpasses : setting.rules.Passes allowed)
    (room : Nat) {node : Node} (hallowed : allowed node) (taken : List Nat) (s : Track σ) :
    effect.Holds s (setting.matchNode room node taken s).1 := by
  induction room generalizing node taken s with
  | zero =>
      unfold Setting.matchNode
      split
      · exact h.matchTerminal hallowed s
      · split
        · next hnone => exact h.undefinedRule s hallowed hnone
        · exact h.recursionLimit s
      · exact h.refl s
      · exact h.recursionLimit s
  | succ room ih =>
      unfold Setting.matchNode
      split
      · exact h.matchTerminal hallowed s
      · split
        · next hnone => exact h.undefinedRule s hallowed hnone
        · next nodes hnodes =>
          exact h.rule s hallowed
            (h.matchSequence (hpasses.rule hallowed hnodes) fun _ hnode => ih hnode)
      · exact h.refl s
      · refine h.takeBranch _ taken (h.matchBranches (fun branch hbranch => ?_) (h.refl s))
        exact h.matchSequence (hpasses.branch hallowed branch hbranch) fun _ hnode => ih hnode

end Upholds

end Setting

end TokenGrammar
