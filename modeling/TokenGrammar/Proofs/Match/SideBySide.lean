/-
  TokenGrammar.Proofs.Match.SideBySide

  Two runs side by side.  A pairing says which elements, tracks, failures and stops of one
  run stand for which ones of another, and which stops excuse whatever the other run does.
  If both runs do alike whatever matching does by itself (`Setting.InStep`), they come out
  alike as a whole (`Setting.InStep.matchNode`, `Setting.InStep.matchRoot`).

  The one place where two runs may part is a repeated element that has got further in one
  of them but not in the other.  There the runs have to be brought together again by what
  is known about the pairing.

  Two runs that differ only in the failure that they keep are such a pair
  (`Setting.inStep_levelling`).
-/

import Mathlib.Data.List.Forall2
import TokenGrammar.Proofs.Grammar.Visits
import TokenGrammar.Proofs.Match.Recursion

namespace TokenGrammar

variable {σ τ : Type}

-- ============================================================================
-- Pairings
-- ============================================================================

/-- What of one run stands for what of another. -/
structure Pairing (σ τ : Type) where
  node : Node → Node → Prop
  track : Track σ → Track τ → Prop
  failure : Failure → Failure → Prop
  stop : Abort → Track σ → Abort → Track τ → Prop
  /-- The stops of the first run that say nothing about the second one, and the other way
      round. -/
  exemptLeft : Abort → Track σ → Prop := fun _ _ => False
  exemptRight : Abort → Track τ → Prop := fun _ _ => False

namespace Pairing

/-- Whether two passages come out alike. -/
inductive Passages (pairing : Pairing σ τ) : Passage σ → Passage τ → Prop where
  | matched {t : Track σ} {u : Track τ} (h : pairing.track t u) :
      Passages pairing (.matched, t) (.matched, u)
  | failed {f g : Failure} {t : Track σ} {u : Track τ} (hfailure : pairing.failure f g)
      (h : pairing.track t u) : Passages pairing (.failed f, t) (.failed g, u)
  | stopped {a b : Abort} {t : Track σ} {u : Track τ} (h : pairing.stop a t b u) :
      Passages pairing (.aborted a, t) (.aborted b, u)
  | exemptLeft {a : Abort} {t : Track σ} {other : Passage τ} (h : pairing.exemptLeft a t) :
      Passages pairing (.aborted a, t) other
  | exemptRight {b : Abort} {u : Track τ} {other : Passage σ} (h : pairing.exemptRight b u) :
      Passages pairing other (.aborted b, u)

/-- Whether two passages come out alike, and carry the same with them if they match. -/
structure Tagged (pairing : Pairing σ τ) {α : Type} (a : Passage σ × α) (b : Passage τ × α) :
    Prop where
  passages : pairing.Passages a.1 b.1
  tag_eq : a.1.1 = .matched → b.1.1 = .matched → a.2 = b.2

variable {pairing : Pairing σ τ}

/-- Passages that come out alike may go on alike. -/
theorem Passages.resume {p : Passage σ} {q : Passage τ} {rejected : Failure → Track σ → Passage σ}
    {accepted : Track σ → Passage σ} {rejected' : Failure → Track τ → Passage τ}
    {accepted' : Track τ → Passage τ} (h : pairing.Passages p q)
    (hrejected : ∀ f g t u, pairing.failure f g → pairing.track t u →
      pairing.Passages (rejected f t) (rejected' g u))
    (haccepted : ∀ t u, pairing.track t u → pairing.Passages (accepted t) (accepted' u)) :
    pairing.Passages (p.resume rejected accepted) (q.resume rejected' accepted') := by
  cases h with
  | matched h => exact haccepted _ _ h
  | failed hfailure h => exact hrejected _ _ _ _ hfailure h
  | stopped h => exact .stopped h
  | exemptLeft h => exact .exemptLeft h
  | exemptRight h => exact .exemptRight h

/-- A tag does not matter if one of the passages does not match. -/
theorem Passages.tagged {α : Type} {p : Passage σ} {q : Passage τ} (h : pairing.Passages p q)
    {tag : α} : pairing.Tagged (p, tag) (q, tag) := ⟨h, fun _ _ => rfl⟩

end Pairing

/-- Whether two elements are of one kind, where their parts are paired. -/
inductive Node.Alike (node : Node → Node → Prop) (left right : RuleTable) : Node → Node → Prop where
  | terminal (modifiers modifiers' : Modifiers) (span span' : Span) (pattern pattern' : Terminal) :
      Alike node left right (.terminal modifiers span pattern) (.terminal modifiers' span' pattern')
  | undefined {modifiers modifiers' : Modifiers} {span span' : Span} {name : String}
      (hleft : left.nodes? name = none) (hright : right.nodes? name = none) :
      Alike node left right (.ref modifiers span name) (.ref modifiers' span' name)
  | ref {modifiers modifiers' : Modifiers} {span span' : Span} {name : String}
      {nodes nodes' : List Node} (hleft : left.nodes? name = some nodes)
      (hright : right.nodes? name = some nodes') (h : List.Forall₂ node nodes nodes') :
      Alike node left right (.ref modifiers span name) (.ref modifiers' span' name)
  | alternation (modifiers modifiers' : Modifiers) (span span' : Span)
      {branches branches' : List (List Node)} (onceEach : Bool)
      (h : List.Forall₂ (List.Forall₂ node) branches branches') :
      Alike node left right (.alternation modifiers span branches onceEach)
        (.alternation modifiers' span' branches' onceEach)

/-- An element is of one kind with itself, if what it holds or refers to is paired with
    itself. -/
theorem Node.alike_self {related : Node → Node → Prop} {rules : RuleTable} {allowed : Node → Prop}
    (hpasses : rules.Passes allowed) (hself : ∀ node, allowed node → related node node)
    {node : Node} (h : allowed node) : Node.Alike related rules rules node node := by
  have hsequence : ∀ nodes, (∀ inner ∈ nodes, allowed inner) → List.Forall₂ related nodes nodes :=
    fun nodes hnodes => List.forall₂_same.2 fun inner hinner => hself inner (hnodes inner hinner)
  cases node with
  | terminal modifiers span pattern => exact .terminal _ _ _ _ _ _
  | ref modifiers span name =>
      rcases hnodes : rules.nodes? name with _ | nodes
      · exact .undefined hnodes hnodes
      · exact .ref hnodes hnodes (hsequence nodes (hpasses.rule h hnodes))
  | alternation modifiers span branches onceEach =>
      refine .alternation _ _ _ _ _ (List.forall₂_same.2 fun branch hbranch => ?_)
      exact hsequence branch (hpasses.branch h branch hbranch)

/-- Whether nothing but what stands directly in front of an element is said about one
    element and not about another. -/
structure Modifiers.Agree (modifiers modifiers' : Modifiers) : Prop where
  optional : modifiers.optional = modifiers'.optional
  repeated : modifiers.repeated = modifiers'.repeated
  fatal : modifiers.fatal = modifiers'.fatal

namespace Setting

/-- A terminal comes out alike at the same place, if telling it and going back do. -/
theorem passages_matchTerminal {left : Setting σ} {right : Setting τ} {pairing : Pairing σ τ}
    (adjacent : Bool) (pattern : Terminal) {t : Track σ} {u : Track τ}
    (hreader : t.reader = u.reader) (h : pairing.track t u)
    (hmismatch : ∀ mismatch, pairing.failure (.mismatch mismatch) (.mismatch mismatch))
    (hoffer : ∀ {t : Track σ} {u : Track τ} {f g : Failure} (position : Nat),
      pairing.failure f g → pairing.track t u →
        pairing.track (t.offer position f) (u.offer position g))
    (htold : ∀ matched behind,
      pattern.matchAt adjacent u.reader = .ok (matched, behind) →
        pairing.Passages (left.told (.token matched) (t.withReader behind))
          (right.told (.token matched) (u.withReader behind)))
    (hback : ∀ {t' : Track σ} {u' : Track τ}, pairing.track t' u' →
      pairing.Passages (left.wentBack t.reader.checkpoint t')
        (right.wentBack u.reader.checkpoint u')) :
    pairing.Passages (left.matchTerminal adjacent pattern t)
      (right.matchTerminal adjacent pattern u) := by
  unfold matchTerminal
  rw [hreader] at hback ⊢
  rcases hmatch : pattern.matchAt adjacent u.reader with miss | ⟨matched, behind⟩
  · exact .failed (hmismatch _) (hoffer _ (hmismatch _) h)
  · simp only
    rw [tell_eq_resume, tell_eq_resume]
    refine (htold matched behind hmatch).resume ?_ fun _ _ ht => .matched ht
    intro f g t' u' hfailure ht
    rw [failAt, failAt, putBack_eq_resume, putBack_eq_resume]
    exact (hback (hoffer _ hfailure ht)).resume
      (fun _ _ _ _ hfailure hback => .failed hfailure hback)
      fun _ _ hback => .failed hfailure hback

/-- Whether two runs do alike what matching does by itself. -/
structure InStep (left : Setting σ) (right : Setting τ) (pairing : Pairing σ τ) : Prop where
  alike {m n : Node} (h : pairing.node m n) : Node.Alike pairing.node left.rules right.rules m n
  modifiers {m n : Node} (h : pairing.node m n) : m.modifiers.Agree n.modifiers
  enter {t : Track σ} {u : Track τ} (name : String) (h : pairing.track t u) :
    pairing.Passages (left.told (.enter name) (t.openRule name))
      (right.told (.enter name) (u.openRule name))
  leave {t : Track σ} {u : Track τ} (name : String) (h : pairing.track t u) :
    pairing.Passages (left.told (.leave name) t) (right.told (.leave name) u)
  closeRule {t : Track σ} {u : Track τ} (h : pairing.track t u) :
    pairing.track t.closeRule u.closeRule
  offerHere {t : Track σ} {u : Track τ} {f g : Failure} (hfailure : pairing.failure f g)
    (h : pairing.track t u) : pairing.track (t.offerHere f) (u.offerHere g)
  /-- Going back to where two tracks stood. -/
  wentBack {s t : Track σ} {s' t' : Track τ} (hs : pairing.track s s') (ht : pairing.track t t') :
    pairing.Passages (left.wentBack s.reader.checkpoint t) (right.wentBack s'.reader.checkpoint t')
  terminal {modifiers modifiers' : Modifiers} {span span' : Span} {pattern pattern' : Terminal}
    {t : Track σ} {u : Track τ}
    (hnode : pairing.node (.terminal modifiers span pattern) (.terminal modifiers' span' pattern'))
    (h : pairing.track t u) :
    pairing.Passages (left.matchTerminal modifiers.adjacent pattern t)
      (right.matchTerminal modifiers'.adjacent pattern' u)
  noAlternative {fs gs : List Failure} (h : List.Forall₂ pairing.failure fs gs) :
    pairing.failure (.noAlternative fs) (.noAlternative gs)
  emptyAlternation : pairing.failure .emptyAlternation .emptyAlternation
  alreadySet (index : Nat) : pairing.failure (.alreadySet index) (.alreadySet index)
  undefinedRule {t : Track σ} {u : Track τ} (name : String) (h : pairing.track t u) :
    pairing.stop (.undefinedRule name) t (.undefinedRule name) u
  recursionLimit {t : Track σ} {u : Track τ} (h : pairing.track t u) :
    pairing.stop (.recursionLimit left.limit) t (.recursionLimit right.limit) u
  fatalElement {f g : Failure} {t : Track σ} {u : Track τ} (hfailure : pairing.failure f g)
    (h : pairing.track t u) : pairing.stop (.fatalElement f) t (.fatalElement g) u
  emptyRepetition {m n : Node} {t : Track σ} {u : Track τ} (hnode : pairing.node m n)
    (h : pairing.track t u) : pairing.stop (.emptyRepetition m) t (.emptyRepetition n) u
  /-- A repeated element has got further in the first run only. -/
  onlyLeft {room : Nat} {m n : Node} {taken taken' : List Nat} {t after : Track σ}
    {u after' : Track τ} (passes : Nat) (hnode : pairing.node m n)
    (hrepeated : m.modifiers.repeated = true)
    (hattempt : ∀ taken t u, pairing.track t u →
      pairing.Tagged (left.matchNode room m taken t) (right.matchNode room n taken u))
    (h : pairing.track t u)
    (hleft : left.matchNode room m taken t = ((.matched, after), taken'))
    (hright : right.matchNode room n taken u = ((.matched, after'), taken'))
    (hafter : pairing.track after after')
    (hfurther : after.reader.remaining < t.reader.remaining)
    (hnot : ¬after'.reader.remaining < u.reader.remaining) :
    pairing.Passages (matchElement (left.matchNode room m) m (passes + 1) taken' after)
      (.aborted (.emptyRepetition n), after')
  /-- A repeated element has got further in the second run only. -/
  onlyRight {room : Nat} {m n : Node} {taken taken' : List Nat} {t after : Track σ}
    {u after' : Track τ} (passes : Nat) (hnode : pairing.node m n)
    (hrepeated : m.modifiers.repeated = true)
    (hattempt : ∀ taken t u, pairing.track t u →
      pairing.Tagged (left.matchNode room m taken t) (right.matchNode room n taken u))
    (h : pairing.track t u)
    (hleft : left.matchNode room m taken t = ((.matched, after), taken'))
    (hright : right.matchNode room n taken u = ((.matched, after'), taken'))
    (hafter : pairing.track after after')
    (hnot : ¬after.reader.remaining < t.reader.remaining)
    (hfurther : after'.reader.remaining < u.reader.remaining) :
    pairing.Passages (.aborted (.emptyRepetition m), after)
      (matchElement (right.matchNode room n) n (passes + 1) taken' after')

namespace InStep

variable {left : Setting σ} {right : Setting τ} {pairing : Pairing σ τ}

-- ============================================================================
-- Rules
-- ============================================================================

theorem putBack (h : left.InStep right pairing) {s t : Track σ} {s' t' : Track τ}
    {goOn : Track σ → Passage σ} {goOn' : Track τ → Passage τ} (hs : pairing.track s s')
    (ht : pairing.track t t')
    (hgoOn : ∀ back back', pairing.track back back' →
      pairing.Passages (goOn back) (goOn' back')) :
    pairing.Passages (left.putBack s.reader.checkpoint t goOn)
      (right.putBack s'.reader.checkpoint t' goOn') := by
  rw [putBack_eq_resume, putBack_eq_resume]
  exact (h.wentBack hs ht).resume (fun _ _ _ _ hfailure hback => .failed hfailure hback) hgoOn

theorem failAt (h : left.InStep right pairing) {s t : Track σ} {s' t' : Track τ} {f g : Failure}
    (hs : pairing.track s s') (hfailure : pairing.failure f g) (ht : pairing.track t t') :
    pairing.Passages (left.failAt s.reader.checkpoint f t)
      (right.failAt s'.reader.checkpoint g t') :=
  h.putBack hs ht fun _ _ hback => .failed hfailure hback

theorem leaveRule (h : left.InStep right pairing) (name : String) {s : Track σ} {s' : Track τ}
    (hs : pairing.track s s') {p : Passage σ} {q : Passage τ} (hpassages : pairing.Passages p q) :
    pairing.Passages (left.leaveRule name s.reader.checkpoint p)
      (right.leaveRule name s'.reader.checkpoint q) := by
  rw [leaveRule_eq_resume, leaveRule_eq_resume]
  refine hpassages.resume (fun f g t u hfailure ht => h.failAt hs hfailure ht) ?_
  intro t u ht
  rw [tell_eq_resume, tell_eq_resume]
  refine (h.leave name ht).resume ?_ fun _ _ htold => .matched htold
  exact fun f g t u hfailure htold => h.failAt hs hfailure (h.offerHere hfailure htold)

/-- Entering a rule, matching what it holds and leaving it. -/
theorem enterRule (h : left.InStep right pairing) (name : String) {s : Track σ} {s' : Track τ}
    (hs : pairing.track s s') {body : Track σ → Passage σ} {body' : Track τ → Passage τ}
    (hbody : ∀ t u, pairing.track t u → pairing.Passages (body t) (body' u))
    {rejected : Failure → Track σ → Passage σ} {rejected' : Failure → Track τ → Passage τ}
    (hrejected : ∀ f g t u, pairing.failure f g → pairing.track t u →
      pairing.Passages (rejected f t) (rejected' g u)) :
    pairing.Passages
      (left.tell (.enter name) (s.openRule name) rejected fun told =>
        left.leaveRule name s.reader.checkpoint (body told))
      (right.tell (.enter name) (s'.openRule name) rejected' fun told =>
        right.leaveRule name s'.reader.checkpoint (body' told)) := by
  rw [tell_eq_resume, tell_eq_resume]
  refine (h.enter name hs).resume hrejected fun t u ht => ?_
  exact h.leaveRule name hs (hbody t u ht)

theorem matchRule (h : left.InStep right pairing) (name : String) {s : Track σ} {s' : Track τ}
    (hs : pairing.track s s') {body : Track σ → Passage σ} {body' : Track τ → Passage τ}
    (hbody : ∀ t u, pairing.track t u → pairing.Passages (body t) (body' u)) :
    pairing.Passages (left.matchRule name body s) (right.matchRule name body' s') := by
  have hpassages := h.enterRule name hs hbody fun f g t u hfailure ht =>
    h.failAt hs hfailure (h.offerHere hfailure ht)
  unfold Setting.matchRule
  rw [Passage.closeRule_eq_resume, Passage.closeRule_eq_resume]
  exact hpassages.resume (fun _ _ _ _ hfailure ht => .failed hfailure (h.closeRule ht))
    fun _ _ ht => .matched (h.closeRule ht)

-- ============================================================================
-- Alternations
-- ============================================================================

theorem matchBranches (h : left.InStep right pairing) {body : List Node → Track σ → Passage σ}
    {body' : List Node → Track τ → Passage τ}
    (hbody : ∀ nodes nodes' t u, List.Forall₂ pairing.node nodes nodes' → pairing.track t u →
      pairing.Passages (body nodes t) (body' nodes' u))
    {branches branches' : List (List Node)}
    (hbranches : List.Forall₂ (List.Forall₂ pairing.node) branches branches')
    {failed failed' : List Failure} (hfailed : List.Forall₂ pairing.failure failed failed')
    {s t : Track σ} {s' t' : Track τ} (hs : pairing.track s s') (ht : pairing.track t t') :
    pairing.Tagged (left.matchBranches s.reader.checkpoint body failed branches t)
      (right.matchBranches s'.reader.checkpoint body' failed' branches' t') := by
  induction hbranches generalizing failed failed' t t' with
  | nil =>
      refine ⟨.failed (h.noAlternative ?_) ht, fun hmatched => nomatch hmatched⟩
      exact List.rel_reverse hfailed
  | cons hbranch _ ih =>
      have hpassages := hbody _ _ t t' hbranch ht
      rw [matchBranches_cons, matchBranches_cons, ← hfailed.length_eq]
      generalize body _ t = p at hpassages ⊢
      generalize body' _ t' = q at hpassages ⊢
      cases hpassages with
      | matched hafter => exact ⟨.matched hafter, fun _ _ => rfl⟩
      | stopped hstop => exact ⟨.stopped hstop, fun hmatched => nomatch hmatched⟩
      | exemptLeft hexempt => exact ⟨.exemptLeft hexempt, fun hmatched => nomatch hmatched⟩
      | exemptRight hexempt => exact ⟨.exemptRight hexempt, fun _ hmatched => nomatch hmatched⟩
      | @failed f g after after' hfailure hafter =>
          have hback := h.wentBack hs hafter
          dsimp only
          generalize left.wentBack s.reader.checkpoint after = p at hback ⊢
          generalize right.wentBack s'.reader.checkpoint after' = q at hback ⊢
          cases hback with
          | matched hback => exact ih (.cons hfailure hfailed) hback
          | failed hfailure hback => exact ⟨.failed hfailure hback, fun hmatched => nomatch hmatched⟩
          | stopped hstop => exact ⟨.stopped hstop, fun hmatched => nomatch hmatched⟩
          | exemptLeft hexempt => exact ⟨.exemptLeft hexempt, fun hmatched => nomatch hmatched⟩
          | exemptRight hexempt =>
              exact ⟨.exemptRight hexempt, fun _ hmatched => nomatch hmatched⟩

theorem takeBranch (h : left.InStep right pairing) (onceEach : Bool) (taken : List Nat)
    {s : Track σ} {s' : Track τ} (hs : pairing.track s s') {chosen : Passage σ × Nat}
    {chosen' : Passage τ × Nat} (hchosen : pairing.Tagged chosen chosen') :
    pairing.Tagged (left.takeBranch s.reader.checkpoint onceEach taken chosen)
      (right.takeBranch s'.reader.checkpoint onceEach taken chosen') := by
  obtain ⟨p, index⟩ := chosen
  obtain ⟨q, index'⟩ := chosen'
  obtain ⟨hpassages, htag⟩ := hchosen
  dsimp only at hpassages htag
  cases hpassages with
  | failed hfailure ht => exact (Pairing.Passages.failed hfailure ht).tagged
  | stopped hstop => exact (Pairing.Passages.stopped hstop).tagged
  | exemptLeft hexempt => exact ⟨.exemptLeft hexempt, fun hmatched => nomatch hmatched⟩
  | exemptRight hexempt => exact ⟨.exemptRight hexempt, fun _ hmatched => nomatch hmatched⟩
  | matched ht =>
      obtain rfl : index = index' := htag rfl rfl
      rw [Setting.takeBranch, Setting.takeBranch]
      split
      · split
        · refine (h.putBack hs ht fun back back' hback => ?_).tagged
          exact .failed (h.alreadySet index) (h.offerHere (h.alreadySet index) hback)
        · exact (Pairing.Passages.matched ht).tagged
      · exact (Pairing.Passages.matched ht).tagged

-- ============================================================================
-- Elements and sequences
-- ============================================================================

/-- An element that both runs can attempt alike comes out alike however often it is
    repeated. -/
theorem matchElement (h : left.InStep right pairing) {room : Nat} {m n : Node}
    (hnode : pairing.node m n)
    (hattempt : ∀ taken t u, pairing.track t u →
      pairing.Tagged (left.matchNode room m taken t) (right.matchNode room n taken u))
    (passes : Nat) (taken : List Nat) {t : Track σ} {u : Track τ} (ht : pairing.track t u) :
    pairing.Passages (Setting.matchElement (left.matchNode room m) m passes taken t)
      (Setting.matchElement (right.matchNode room n) n passes taken u) := by
  obtain ⟨hoptional, hrepeated, hfatal⟩ := h.modifiers hnode
  obtain ⟨hpassages, htag⟩ := hattempt taken t u ht
  unfold Setting.matchElement
  rcases hleft : left.matchNode room m taken t with ⟨p, taken₁⟩
  rcases hright : right.matchNode room n taken u with ⟨q, taken₂⟩
  rw [hleft, hright] at hpassages htag
  dsimp only at hpassages htag
  cases hpassages with
  | stopped hstop => exact .stopped hstop
  | exemptLeft hexempt => exact .exemptLeft hexempt
  | exemptRight hexempt => exact .exemptRight hexempt
  | failed hfailure hafter =>
      simp only [← hoptional, ← hrepeated, ← hfatal]
      split
      · exact .matched hafter
      · split
        · exact .stopped (h.fatalElement hfailure hafter)
        · exact .failed hfailure hafter
  | @matched after after' hafter =>
      obtain rfl : taken₁ = taken₂ := htag rfl rfl
      simp only [← hrepeated]
      split
      · next hrepeats =>
        split
        · next hfurther =>
          split
          · exact h.matchElement hnode hattempt (passes + 1) taken₁ hafter
          · next hnot =>
            exact h.onlyLeft passes hnode hrepeats hattempt ht hleft hright hafter hfurther hnot
        · next hnot =>
          split
          · next hfurther =>
            exact h.onlyRight passes hnode hrepeats hattempt ht hleft hright hafter hnot hfurther
          · exact .stopped (h.emptyRepetition hnode hafter)
      · exact .matched hafter
termination_by t.reader.remaining

theorem matchSequence (h : left.InStep right pairing) {room : Nat}
    (hattempt : ∀ m n taken t u, pairing.node m n → pairing.track t u →
      pairing.Tagged (left.matchNode room m taken t) (right.matchNode room n taken u))
    {nodes nodes' : List Node} (hnodes : List.Forall₂ pairing.node nodes nodes') {t : Track σ}
    {u : Track τ} (ht : pairing.track t u) :
    pairing.Passages (Setting.matchSequence (left.matchNode room) nodes t)
      (Setting.matchSequence (right.matchNode room) nodes' u) := by
  induction hnodes generalizing t u with
  | nil => exact .matched ht
  | cons hnode _ ih =>
      rw [matchSequence_cons, matchSequence_cons]
      refine (h.matchElement hnode (fun taken t u => hattempt _ _ taken t u hnode) 0 [] ht).resume
        (fun _ _ _ _ hfailure hafter => .failed hfailure hafter) ?_
      exact fun t u hafter => ih hafter

/-- Attempts at elements that are paired come out alike. -/
theorem matchNode (h : left.InStep right pairing) (room : Nat) {m n : Node}
    (hnode : pairing.node m n) (taken : List Nat) {t : Track σ} {u : Track τ}
    (ht : pairing.track t u) :
    pairing.Tagged (left.matchNode room m taken t) (right.matchNode room n taken u) := by
  induction room generalizing m n taken t u with
  | zero =>
      cases h.alike hnode with
      | terminal =>
          unfold Setting.matchNode
          exact (h.terminal hnode ht).tagged
      | undefined hleft hright =>
          unfold Setting.matchNode
          simp only [hleft, hright]
          exact (Pairing.Passages.stopped (h.undefinedRule _ ht)).tagged
      | ref hleft hright =>
          unfold Setting.matchNode
          simp only [hleft, hright]
          exact (Pairing.Passages.stopped (h.recursionLimit ht)).tagged
      | alternation _ _ _ _ _ hbranches =>
          cases hbranches with
          | nil =>
              unfold Setting.matchNode
              exact (Pairing.Passages.failed h.emptyAlternation ht).tagged
          | cons =>
              unfold Setting.matchNode
              exact (Pairing.Passages.stopped (h.recursionLimit ht)).tagged
  | succ room ih =>
      have hbody : ∀ nodes nodes' t u, List.Forall₂ pairing.node nodes nodes' →
          pairing.track t u → pairing.Passages (Setting.matchSequence (left.matchNode room) nodes t)
            (Setting.matchSequence (right.matchNode room) nodes' u) :=
        fun nodes nodes' t u hnodes ht =>
          h.matchSequence (fun _ _ taken _ _ hnode ht => ih hnode taken ht) hnodes ht
      cases h.alike hnode with
      | terminal =>
          unfold Setting.matchNode
          exact (h.terminal hnode ht).tagged
      | undefined hleft hright =>
          unfold Setting.matchNode
          simp only [hleft, hright]
          exact (Pairing.Passages.stopped (h.undefinedRule _ ht)).tagged
      | ref hleft hright hnodes =>
          unfold Setting.matchNode
          simp only [hleft, hright]
          exact (h.matchRule _ ht fun t u ht => hbody _ _ t u hnodes ht).tagged
      | alternation _ _ _ _ onceEach hbranches =>
          cases hbranches with
          | nil =>
              unfold Setting.matchNode
              exact (Pairing.Passages.failed h.emptyAlternation ht).tagged
          | cons hfirst hlater =>
              unfold Setting.matchNode
              exact h.takeBranch onceEach taken ht
                (h.matchBranches hbody (.cons hfirst hlater) .nil ht ht)

-- ============================================================================
-- Whole runs
-- ============================================================================

/-- Runs that begin alike come out alike, if both or neither have a rule to begin with. -/
theorem matchRoot (h : left.InStep right pairing) {reader reader' : Reader} {memory : σ}
    {memory' : τ}
    (hstart : pairing.track ⟨reader, [], none, memory⟩ ⟨reader', [], none, memory'⟩)
    (hlimit : left.limit = right.limit)
    (hroot : Option.Rel (List.Forall₂ pairing.node) (left.rules.nodes? rootName)
      (right.rules.nodes? rootName))
    (hnoRoot : ∀ t u, pairing.track t u → pairing.stop .noRoot t .noRoot u) :
    pairing.Passages (left.matchRoot reader memory) (right.matchRoot reader' memory') := by
  have hstop := h.recursionLimit hstart
  unfold Setting.matchRoot
  dsimp only
  rw [← hlimit] at hstop ⊢
  generalize left.rules.nodes? rootName = found at hroot ⊢
  generalize right.rules.nodes? rootName = found' at hroot ⊢
  generalize left.limit = limit at hstop ⊢
  cases hroot with
  | none => exact .stopped (hnoRoot _ _ hstart)
  | some hnodes =>
      cases limit with
      | zero => exact .stopped hstop
      | succ room =>
          refine h.enterRule rootName hstart (fun t u ht => ?_) fun _ _ _ _ hfailure ht =>
            h.failAt hstart hfailure ht
          exact h.matchSequence (fun _ _ taken _ _ hnode ht => h.matchNode room hnode taken ht)
            hnodes ht

end InStep

end Setting

-- ============================================================================
-- Runs that keep different failures
-- ============================================================================

namespace Track

/-- Two tracks that differ in nothing but the failure that they keep. -/
structure Level (t u : Track σ) : Prop where
  reader_eq : t.reader = u.reader
  scopes_eq : t.scopes = u.scopes
  memory_eq : t.memory = u.memory

namespace Level

variable {t u : Track σ}

theorem emit (h : t.Level u) (listener : Listener σ) (event : Event) :
    (t.emit listener event).1 = (u.emit listener event).1 ∧
      (t.emit listener event).2.Level (u.emit listener event).2 := by
  obtain ⟨hreader, hscopes, hmemory⟩ := h
  have hcontext : t.context = u.context := by rw [context, context, hreader, hscopes]
  unfold Track.emit
  rw [hcontext, hmemory]
  exact ⟨rfl, hreader, hscopes, rfl⟩

theorem rewind (h : t.Level u) (listener : Listener σ) (checkpoint : Checkpoint) :
    (t.rewind listener checkpoint).1 = (u.rewind listener checkpoint).1 ∧
      (t.rewind listener checkpoint).2.Level (u.rewind listener checkpoint).2 := by
  have hback : (t.withReader (t.reader.seek checkpoint)).Level
      (u.withReader (u.reader.seek checkpoint)) :=
    ⟨congrArg (Reader.seek · checkpoint) h.reader_eq, h.scopes_eq, h.memory_eq⟩
  obtain ⟨hreply, htold⟩ := hback.emit listener (.rewind checkpoint.position)
  unfold Track.rewind
  dsimp only
  rw [h.reader_eq] at hreply htold hback ⊢
  split
  · revert hreply htold
    generalize Track.emit listener _ (t.withReader _) = told
    generalize Track.emit listener _ (u.withReader _) = told'
    obtain ⟨reply, told⟩ := told
    obtain ⟨reply', told'⟩ := told'
    rintro rfl htold
    cases reply with
    | stopped refusal => exact ⟨rfl, htold⟩
    | rejected refusal => exact ⟨rfl, htold⟩
    | accepted => exact ⟨rfl, htold⟩
  · exact ⟨rfl, hback⟩

end Level

end Track

namespace Setting

/-- A run beside one that keeps other failures. -/
def levelling : Pairing σ σ where
  node m n := m = n
  track t u := t.Level u
  failure f g := f = g
  stop a t b u := a = b ∧ t.Level u

theorem levelling_told (setting : Setting σ) (event : Event) {t u : Track σ} (h : t.Level u) :
    levelling.Passages (setting.told event t) (setting.told event u) := by
  obtain ⟨hreply, htold⟩ := h.emit setting.listener event
  unfold told tell
  rcases hleft : t.emit setting.listener event with ⟨reply, after⟩
  rcases hright : u.emit setting.listener event with ⟨reply', after'⟩
  rw [hleft, hright] at hreply htold
  obtain rfl : reply = reply' := hreply
  cases reply with
  | accepted => exact .matched htold
  | rejected refusal => exact .failed rfl htold
  | stopped refusal => exact .stopped ⟨rfl, htold⟩

theorem levelling_wentBack (setting : Setting σ) (checkpoint : Checkpoint) {t u : Track σ}
    (h : t.Level u) :
    levelling.Passages (setting.wentBack checkpoint t) (setting.wentBack checkpoint u) := by
  obtain ⟨hrefusal, hback⟩ := h.rewind setting.listener checkpoint
  unfold wentBack putBack
  rcases hleft : t.rewind setting.listener checkpoint with ⟨refusal, after⟩
  rcases hright : u.rewind setting.listener checkpoint with ⟨refusal', after'⟩
  rw [hleft, hright] at hrefusal hback
  obtain rfl : refusal = refusal' := hrefusal
  cases refusal with
  | none => exact .matched hback
  | some refusal => exact .stopped ⟨rfl, hback⟩

/-- No failure that a run keeps matters to how it goes on. -/
theorem inStep_levelling (setting : Setting σ) : setting.InStep setting levelling where
  alike := by
    rintro node _ rfl
    exact Node.alike_self setting.rules.passes_true (fun _ _ => rfl) trivial
  modifiers := by
    rintro node _ rfl
    exact ⟨rfl, rfl, rfl⟩
  enter name h :=
    setting.levelling_told _ ⟨h.reader_eq, congrArg (name :: ·) h.scopes_eq, h.memory_eq⟩
  leave _ h := setting.levelling_told _ h
  closeRule h := ⟨h.reader_eq, congrArg List.tail h.scopes_eq, h.memory_eq⟩
  offerHere _ h := ⟨h.reader_eq, h.scopes_eq, h.memory_eq⟩
  wentBack hs ht := hs.reader_eq ▸ setting.levelling_wentBack _ ht
  terminal := by
    rintro modifiers _ span _ pattern _ t u hnode h
    cases hnode
    apply passages_matchTerminal modifiers.adjacent pattern h.reader_eq h fun _ => rfl
    · exact fun _ _ h => ⟨h.reader_eq, h.scopes_eq, h.memory_eq⟩
    · exact fun matched behind _ => setting.levelling_told _ ⟨rfl, h.scopes_eq, h.memory_eq⟩
    · exact fun hback => h.reader_eq ▸ setting.levelling_wentBack _ hback
  noAlternative h := congrArg Failure.noAlternative (List.forall₂_eq_eq_eq ▸ h)
  emptyAlternation := rfl
  alreadySet _ := rfl
  undefinedRule _ h := ⟨rfl, h⟩
  recursionLimit h := ⟨rfl, h⟩
  fatalElement hfailure h := ⟨congrArg Abort.fatalElement hfailure, h⟩
  emptyRepetition hnode h := ⟨congrArg Abort.emptyRepetition hnode, h⟩
  onlyLeft _ _ _ _ h _ _ hafter hfurther hnot :=
    absurd (hafter.reader_eq ▸ h.reader_eq ▸ hfurther) hnot
  onlyRight _ _ _ _ h _ _ hafter hnot hfurther :=
    absurd (hafter.reader_eq ▸ h.reader_eq ▸ hfurther) hnot

/-- An element that matches does so, too, where another failure is kept. -/
theorem matchNode_of_level {setting : Setting σ} {room : Nat} {node : Node} {taken taken' : List Nat}
    {t u after : Track σ} (h : t.Level u)
    (hmatch : setting.matchNode room node taken t = ((.matched, after), taken')) :
    ∃ after', setting.matchNode room node taken u = ((.matched, after'), taken') ∧
      after.Level after' := by
  obtain ⟨hpassages, htag⟩ := setting.inStep_levelling.matchNode room rfl taken h
  rcases hother : setting.matchNode room node taken u with ⟨passage, taken''⟩
  rw [hmatch, hother] at hpassages htag
  cases hpassages with
  | matched hafter =>
      obtain rfl : taken' = taken'' := htag rfl rfl
      exact ⟨_, rfl, hafter⟩
  | exemptRight hexempt => exact hexempt.elim

end Setting

end TokenGrammar
