/-
  TokenGrammar.Proofs.Match.Spacing

  What stands between the significant tokens does not matter to rules that do not look at
  it.  Two streams with the same significant tokens are matched side by side: the readers
  have the same tokens ahead of them (`Reader.Matches`), and the failures that lie furthest
  into the inputs say the same about the same token (`Reach.Alike`).

  The runs can part at one place only.  The end of the input takes no token, but the reader
  gets past what stands in front of the mark at the end, and if nothing stands there in the
  other stream, a repeated element gets further in one run and not in the other.  If its
  branches may be taken more than once, the run that gets further stops after the next
  pass; if not, it may go on (`RuleTable.Stalls`).

  Main statement: `RuleTable.spacing_is_disregarded`.
-/

import TokenGrammar.Proofs.Match.Return
import TokenGrammar.Proofs.Match.SideBySide
import TokenGrammar.Proofs.Match.Strides

namespace TokenGrammar

-- ============================================================================
-- Tracks side by side
-- ============================================================================

/-- Whether two failures in two streams say the same about the same significant token. -/
structure Reach.Alike (left right : TokenStream) (reach other : Reach Failure) : Prop where
  samePlace : left.SamePlace right reach.position other.position
  message_eq : reach.cause.message = other.cause.message
  rule_eq : reach.rule = other.rule

theorem Reach.Alike.symm {left right : TokenStream} {reach other : Reach Failure}
    (h : Reach.Alike left right reach other) : Reach.Alike right left other reach :=
  ⟨h.samePlace.symm, h.message_eq.symm, h.rule_eq.symm⟩

/-- Of failures that are alike those that are kept are alike. -/
theorem Reach.Alike.offer {left right : TokenStream} {kept kept' : Option (Reach Failure)}
    {reach other : Reach Failure} (h : Reach.Alike left right reach other)
    (hkept : Option.Rel (Reach.Alike left right) kept kept') :
    Option.Rel (Reach.Alike left right) (Reach.offer kept reach) (Reach.offer kept' other) := by
  cases hkept with
  | none => exact .some h
  | @some kept kept' hkept =>
      have hfurther : reach.isFurther (some kept) = other.isFurther (some kept') := by
        rw [isFurther, isFurther, decide_eq_decide]
        exact hkept.samePlace.lt_iff h.samePlace
      unfold Reach.offer
      rw [hfurther]
      split
      · exact .some h
      · exact .some hkept

namespace Track

variable {σ τ : Type}

/-- Two tracks in two streams, with the same tokens ahead of them and the same rules
    open. -/
structure Abreast (left right : TokenStream) (t : Track σ) (u : Track τ) : Prop where
  isMatch : Reader.Matches left right t.reader u.reader
  scopes_eq : t.scopes = u.scopes

/-- Two tracks in two streams that are alike but for what stands between the significant
    tokens. -/
structure Alike (left right : TokenStream) (t : Track σ) (u : Track τ) : Prop
    extends Abreast left right t u where
  reach_rel : Option.Rel (Reach.Alike left right) t.reach u.reach

variable {left right : TokenStream} {t : Track σ} {u : Track τ}

theorem Abreast.scope_eq (h : Abreast left right t u) : t.scope = u.scope := by
  rw [scope, scope, h.scopes_eq]

theorem Abreast.symm (h : Abreast left right t u) : Abreast right left u t :=
  ⟨h.isMatch.symm, h.scopes_eq.symm⟩

theorem Alike.symm (h : Alike left right t u) : Alike right left u t := by
  refine ⟨h.toAbreast.symm, ?_⟩
  have hreach := h.reach_rel
  generalize t.reach = kept at hreach ⊢
  generalize u.reach = kept' at hreach ⊢
  cases hreach with
  | none => exact .none
  | some h => exact .some h.symm

/-- Offering failures of which the same can be said at the next significant tokens. -/
theorem Alike.offerHere (h : Alike left right t u) (hleft : left.Marked) (hright : right.Marked)
    {f g : Failure} (hfailure : f.message = g.message) :
    Alike left right (t.offerHere f) (u.offerHere g) :=
  ⟨⟨h.isMatch, h.scopes_eq⟩,
    Reach.Alike.offer ⟨h.isMatch.samePlace hleft hright, hfailure, h.scope_eq⟩ h.reach_rel⟩

end Track

/-- What is said of a token that is not what was expected does not depend on its place. -/
theorem Failure.message_expected_eq (what : Expectation) {token other : Token}
    (h : token.Alike other) :
    (mismatch (.expected what token)).message = (mismatch (.expected what other)).message :=
  congrArg (fun shown => "expected " ++ what.description ++ " but found " ++ shown) h.shown_eq

theorem Failure.numberedMessages_eq {fs gs : List Failure}
    (h : List.Forall₂ (fun f g => f.message = g.message) fs gs) (index : Nat) :
    numberedMessages index fs = numberedMessages index gs := by
  induction h generalizing index with
  | nil => rfl
  | cons hhead _ ih => rw [numberedMessages, numberedMessages, hhead, ih]

/-- What is said of failures that say the same is the same. -/
theorem Failure.message_noAlternative_eq {fs gs : List Failure}
    (h : List.Forall₂ (fun f g => f.message = g.message) fs gs) :
    (noAlternative fs).message = (noAlternative gs).message :=
  congrArg (fun messages => "no alternative matched:\n" ++ "\n".intercalate messages)
    (numberedMessages_eq h 0)

-- ============================================================================
-- Stopping at the end
-- ============================================================================

namespace RuleTable

/-- Whether an element is repeated, may take each of its branches only once, and the end of
    the input stands in it. -/
structure EndsOnceEach (rules : RuleTable) (node : Node) : Prop where
  has : rules.Has node
  isOnceEach : node.isOnceEach = true
  repeated : node.modifiers.repeated = true
  mayEnd : rules.MayEnd node

/-- Whether a run has stopped at the end of the input, since such an element has matched
    there without consuming any. -/
def Stalls {σ : Type} (rules : RuleTable) (abort : Abort) (track : Track σ) : Prop :=
  ∃ node, abort = .emptyRepetition node ∧ rules.EndsOnceEach node ∧ track.reader.atEnd = true

end RuleTable

namespace Setting

/-- Runs in two streams with the same significant tokens. -/
def spacing (rules : RuleTable) (left right : TokenStream) : Pairing Unit Unit where
  node m n := m = n ∧ rules.Has m
  track := Track.Alike left right
  failure f g := f.message = g.message
  stop a t b u := a.message = b.message ∧ Track.Abreast left right t u
  exemptLeft a t := (right.Trails ∧ ¬left.Trails) ∧ rules.Stalls a t
  exemptRight b u := (left.Trails ∧ ¬right.Trails) ∧ rules.Stalls b u

variable {rules : RuleTable} {left right : TokenStream}

theorem spacing_symm {p q : Passage Unit} (h : (spacing rules left right).Passages p q) :
    (spacing rules right left).Passages q p := by
  cases h with
  | matched h => exact .matched h.symm
  | failed hfailure h => exact .failed hfailure.symm h.symm
  | stopped h => exact .stopped ⟨h.1.symm, h.2.symm⟩
  | exemptLeft h => exact .exemptRight h
  | exemptRight h => exact .exemptLeft h

-- ============================================================================
-- Runs that part
-- ============================================================================

/-- An alternation does not remember its branches unless it may take each only once. -/
theorem taken_of_matchNode {σ : Type} {setting : Setting σ} {room : Nat} {node : Node}
    (h : node.isOnceEach = false) (taken : List Nat) (track : Track σ) :
    (setting.matchNode room node taken track).2 = taken := by
  unfold matchNode
  split
  · rfl
  · split
    · rfl
    · split <;> rfl
  · rfl
  · split
    · rfl
    · obtain rfl : _ = false := h
      unfold matchAlternation
      dsimp only
      generalize setting.matchBranches _ _ _ _ _ = chosen
      rcases chosen with ⟨⟨_ | failure | abort, after⟩, index⟩ <;> rfl

variable {setting : Setting Unit}

/-- An element has matched in both streams, and has got further in the first one only. -/
structure Parts (setting : Setting Unit) (left right : TokenStream) (room : Nat) (node : Node)
    (taken taken' : List Nat) (t after u after' : Track Unit) : Prop where
  has : setting.rules.Has node
  before : Track.Alike left right t u
  matched : setting.matchNode room node taken t = ((.matched, after), taken')
  matched' : setting.matchNode room node taken u = ((.matched, after'), taken')
  behind : Track.Alike left right after after'
  further : after.reader.remaining < t.reader.remaining
  stays : ¬after'.reader.remaining < u.reader.remaining

section

variable {room : Nat} {node : Node} {taken taken' : List Nat} {t after u after' : Track Unit}
  (hlistener : setting.listener = .acceptAll) (hspacing : setting.rules.ignoresSpacing = true)
  (hleft : left.Marked) (hright : right.Marked)

include hlistener hspacing hright in
/-- Then it has left a track in the second stream that differs from the one before it in
    the failure that is kept at most. -/
theorem Parts.level (h : setting.Parts left right room node taken taken' t after u after') :
    u.Level after' := by
  obtain ⟨hhas, hbefore, -, hmatch', hbehind, -, hstays⟩ := h
  obtain ⟨-, hscopes, hle, -⟩ :=
    strides_of_matchNode hlistener hspacing hright hhas hbefore.isMatch.reads' hmatch'
  rw [hbehind.isMatch.reads'.remaining_eq, hbefore.isMatch.reads'.remaining_eq] at hstays
  have hlast := hbehind.isMatch.reads'.le_last
  have hposition : u.reader.position = after'.reader.position := by omega
  exact ⟨hbefore.isMatch.reads'.eq_of_position_eq hbehind.isMatch.reads' hposition, hscopes.symm,
    rfl⟩

include hlistener hspacing hleft hright in
/-- In the first stream it has got to the end, where something stands in front of the mark.
    In the second one nothing does. -/
theorem Parts.at_end (h : setting.Parts left right room node taken taken' t after u after') :
    (left.Trails ∧ ¬right.Trails) ∧ setting.rules.MayEnd node ∧
      after.reader.position = left.last ∧ after'.reader.atEnd = true := by
  have hreader := (h.level hlistener hspacing hright).reader_eq
  obtain ⟨hhas, hbefore, hmatch, -, hbehind, hfurther, -⟩ := h
  rw [hbehind.isMatch.reads.remaining_eq, hbefore.isMatch.reads.remaining_eq] at hfurther
  have hstrides := strides_of_matchNode hlistener hspacing hleft hhas hbefore.isMatch.reads hmatch
  -- The tokens ahead are the same as before in the second stream, so they are in the first.
  obtain ⟨hmayEnd, hlast⟩ : setting.rules.MayEnd node ∧ after.reader.position = left.last := by
    rcases hstrides.further with heq | hless | hend
    · omega
    · rw [hbefore.isMatch.length_eq, hbehind.isMatch.length_eq, hreader] at hless
      exact absurd hless (Nat.lt_irrefl _)
    · exact hend
  obtain ⟨htrails, hatEnd⟩ :=
    (hreader ▸ hbefore.isMatch).parts_at_end hbehind.isMatch (by omega) hlast
  exact ⟨htrails, hmayEnd, hlast, hatEnd⟩

include hlistener hspacing hleft hright in
/-- If a repeated element may take a branch again, the run that gets further stops after the
    next pass, as the other one has done. -/
theorem Parts.passages (h : setting.Parts left right room node taken taken' t after u after')
    (hrepeated : node.modifiers.repeated = true) (passes : Nat)
    (hattempt : ∀ taken t u, Track.Alike left right t u →
      (spacing setting.rules left right).Tagged (setting.matchNode room node taken t)
        (setting.matchNode room node taken u)) :
    (spacing setting.rules left right).Passages
      (matchElement (setting.matchNode room node) node (passes + 1) taken' after)
      (.aborted (.emptyRepetition node), after') := by
  obtain ⟨htrails, hmayEnd, hlast, hatEnd⟩ := h.at_end hlistener hspacing hleft hright
  cases honceEach : node.isOnceEach with
  | true =>
      exact .exemptRight ⟨htrails, node, rfl, ⟨h.has, honceEach, hrepeated, hmayEnd⟩, hatEnd⟩
  | false =>
      -- In the second stream the next pass would match again, from where the last one did.
      obtain rfl : taken' = taken := by
        rw [← taken_of_matchNode honceEach taken t, h.matched]
      obtain ⟨again', hagain', hlevel⟩ :=
        matchNode_of_level (h.level hlistener hspacing hright) h.matched'
      have hpassages := (hattempt taken' after after' h.behind).passages
      rw [hagain'] at hpassages
      unfold matchElement
      rcases hagain : setting.matchNode room node taken' after with ⟨passage, taken''⟩
      rw [hagain] at hpassages
      dsimp only at hpassages ⊢
      cases hpassages with
      | exemptLeft hexempt => exact .exemptLeft hexempt
      | @matched again _ halike =>
          have hstays : ¬again.reader.remaining < after.reader.remaining := by
            rw [h.behind.isMatch.reads.remaining_eq, hlast, Nat.sub_self]
            exact Nat.not_lt_zero _
          simp only [hrepeated, if_true, if_neg hstays]
          refine .stopped ⟨rfl, ?_, ?_⟩
          · rw [hlevel.reader_eq]
            exact halike.isMatch
          · rw [hlevel.scopes_eq]
            exact halike.scopes_eq

end

/-- Matching elements that ignore spacing does the same by itself in two streams with the
    same significant tokens. -/
theorem inStep_spacing (hlistener : setting.listener = .acceptAll)
    (hspacing : setting.rules.ignoresSpacing = true) (hleft : left.Marked)
    (hright : right.Marked) :
    setting.InStep setting (spacing setting.rules left right) where
  alike := by
    rintro node _ ⟨rfl, hhas⟩
    exact Node.alike_self setting.rules.passes_has (fun _ hinner => ⟨rfl, hinner⟩) hhas
  modifiers := by
    rintro node _ ⟨rfl, -⟩
    exact ⟨rfl, rfl, rfl⟩
  enter name h := by
    rw [told_acceptAll hlistener, told_acceptAll hlistener]
    exact .matched ⟨⟨h.isMatch, congrArg (name :: ·) h.scopes_eq⟩, h.reach_rel⟩
  leave name h := by
    rw [told_acceptAll hlistener, told_acceptAll hlistener]
    exact .matched h
  closeRule h := ⟨⟨h.isMatch, congrArg List.tail h.scopes_eq⟩, h.reach_rel⟩
  offerHere hfailure h := h.offerHere hleft hright hfailure
  wentBack hs ht := by
    rw [wentBack_acceptAll hlistener, wentBack_acceptAll hlistener]
    refine .matched ⟨⟨?_, ht.scopes_eq⟩, ht.reach_rel⟩
    exact ht.isMatch.seek hs.isMatch
  terminal := by
    rintro modifiers _ span _ pattern _ t u ⟨hnode, hhas⟩ h
    cases hnode
    have hignores := hhas.ignoresSpacing hspacing
    have hpeek := h.isMatch.alike_peek hleft hright
    unfold matchTerminal
    rw [Node.matchAt_of_ignoresSpacing hignores, Node.matchAt_of_ignoresSpacing hignores,
      ← pattern.holds_eq hpeek]
    cases pattern.holds t.reader.peek with
    | true =>
        simp only [if_true, tell_eq_resume, told_acceptAll hlistener]
        exact .matched ⟨⟨h.isMatch.read, h.scopes_eq⟩, h.reach_rel⟩
    | false =>
        have hmessage := Failure.message_expected_eq (.terminal pattern) hpeek
        exact .failed hmessage (h.offerHere hleft hright hmessage)
  noAlternative h := Failure.message_noAlternative_eq h
  emptyAlternation := rfl
  alreadySet _ := rfl
  undefinedRule _ h := ⟨rfl, h.toAbreast⟩
  recursionLimit h := ⟨rfl, h.toAbreast⟩
  fatalElement hfailure h := ⟨hfailure, h.toAbreast⟩
  emptyRepetition := by
    rintro node _ t u ⟨rfl, -⟩ h
    exact ⟨rfl, h.toAbreast⟩
  onlyLeft := by
    rintro room node _ taken taken' t after u after' passes ⟨rfl, hhas⟩ hrepeated hattempt h hmatch
      hmatch' hafter hfurther hnot
    have hparts : setting.Parts left right room node taken taken' t after u after' :=
      ⟨hhas, h, hmatch, hmatch', hafter, hfurther, hnot⟩
    exact hparts.passages hlistener hspacing hleft hright hrepeated passes hattempt
  onlyRight := by
    rintro room node _ taken taken' t after u after' passes ⟨rfl, hhas⟩ hrepeated hattempt h hmatch
      hmatch' hafter hnot hfurther
    have hparts : setting.Parts right left room node taken taken' u after' t after :=
      ⟨hhas, h.symm, hmatch', hmatch, hafter.symm, hfurther, hnot⟩
    refine spacing_symm
      (hparts.passages hlistener hspacing hright hleft hrepeated passes fun taken u t h => ?_)
    obtain ⟨hpassages, htag⟩ := hattempt taken t u h.symm
    exact ⟨spacing_symm hpassages, fun hu ht => (htag ht hu).symm⟩

end Setting

-- ============================================================================
-- Outcomes
-- ============================================================================

/-- Two diagnostics that say the same about the same significant token of two streams, or
    about the marks at their ends: there are as many significant tokens in front of it. -/
structure Diagnostic.Alike (left right : TokenStream) (diagnostic other : Diagnostic) : Prop where
  isSignificant : left.IsSignificant diagnostic.position
  isSignificant' : right.IsSignificant other.position
  significantBefore_eq :
    left.significantBefore diagnostic.position = right.significantBefore other.position
  message_eq : diagnostic.message = other.message
  rule_eq : diagnostic.rule = other.rule
  notes_eq : diagnostic.notes = other.notes

/-- Two outcomes of one kind that tell the same about two streams. -/
inductive Outcome.Alike (left right : TokenStream) : Outcome → Outcome → Prop where
  | success : Alike left right .success .success
  | failure {diagnostic other : Diagnostic} (h : Diagnostic.Alike left right diagnostic other) :
      Alike left right (.failure diagnostic) (.failure other)
  | fatal {diagnostic other : Diagnostic} (h : Diagnostic.Alike left right diagnostic other) :
      Alike left right (.fatal diagnostic) (.fatal other)

section Outcomes

variable {left right : TokenStream} (hleft : left.Marked) (hright : right.Marked)
  (hlength : (left.ahead 0).length = (right.ahead 0).length)

include hlength in
theorem Diagnostic.alike_atToken {position other : Nat} (h : left.SamePlace right position other)
    (message rule : String) :
    Alike left right (atToken left position message rule) (atToken right other message rule) :=
  ⟨h.isSignificant, h.isSignificant', h.significantBefore_eq hlength, rfl, rfl, rfl⟩

theorem Diagnostic.Alike.withNotes {diagnostic other : Diagnostic}
    (h : Alike left right diagnostic other) (text : String) :
    Alike left right (diagnostic.withNotes text) (other.withNotes text) := by
  unfold Diagnostic.withNotes
  rw [h.message_eq]
  split
  · exact h
  · exact ⟨h.isSignificant, h.isSignificant', h.significantBefore_eq, rfl, h.rule_eq, rfl⟩

include hleft hright hlength in
/-- The diagnostics for the furthest failures are alike if the tracks are. -/
theorem Track.Alike.furthest {σ τ : Type} {t : Track σ} {u : Track τ} (h : Alike left right t u)
    (notes : Option String) :
    Diagnostic.Alike left right (t.furthest notes) (u.furthest notes) := by
  have hreach := h.reach_rel
  have hplace := h.isMatch.samePlace hleft hright
  have hstream := h.isMatch.reads.stream_eq
  have hstream' := h.isMatch.reads'.stream_eq
  unfold Track.furthest
  rw [hstream, hstream']
  generalize t.reach = kept at hreach ⊢
  generalize u.reach = kept' at hreach ⊢
  cases hreach with
  | none =>
      have halike := Diagnostic.alike_atToken hlength hplace (notes.getD "") rootName
      cases notes with
      | none => exact halike
      | some text => exact halike.withNotes text
  | @some reach reach' h =>
      have halike := Diagnostic.alike_atToken hlength h.samePlace reach'.cause.message reach'.rule
      dsimp only
      rw [h.message_eq, h.rule_eq]
      cases notes with
      | none => exact halike
      | some text => exact halike.withNotes text

include hleft hright hlength in
/-- Runs that come out alike tell the same about the streams, unless one of them is
    exempt. -/
theorem Ending.outcome_alike {rules : RuleTable} {ending ending' : Ending} {t u : Track Unit}
    (h : (Setting.spacing rules left right).Passages (ending, t) (ending', u))
    (requireEnd : Bool) :
    Outcome.Alike left right (ending.outcome requireEnd t) (ending'.outcome requireEnd u) ∨
      (∃ abort, ending' = .aborted abort ∧ (left.Trails ∧ ¬right.Trails) ∧ rules.Stalls abort u) ∨
      ∃ abort, ending = .aborted abort ∧ (right.Trails ∧ ¬left.Trails) ∧ rules.Stalls abort t := by
  cases h with
  | exemptLeft h => exact .inr (.inr ⟨_, rfl, h⟩)
  | exemptRight h => exact .inr (.inl ⟨_, rfl, h⟩)
  | stopped h =>
      obtain ⟨hmessage, habreast⟩ := h
      refine .inl (.fatal ?_)
      rw [hmessage, habreast.scope_eq, habreast.isMatch.reads.stream_eq,
        habreast.isMatch.reads'.stream_eq]
      exact Diagnostic.alike_atToken hlength (habreast.isMatch.samePlace hleft hright) _ _
  | failed hfailure h =>
      refine .inl (.failure ?_)
      rw [hfailure]
      exact h.furthest hleft hright hlength _
  | matched h =>
      left
      unfold Ending.outcome
      dsimp only
      rw [h.isMatch.atEnd_eq]
      split
      · have hmessage := Failure.message_expected_eq (.terminal (.ofCategory .endOfInput))
          (h.isMatch.alike_peek hleft hright)
        exact .failure ((h.offerHere hleft hright hmessage).furthest hleft hright hlength none)
      · exact .success

end Outcomes

namespace RuleTable

/-- Whether a match of a stream is stopped at its end, since a repeated element that may
    take each of its branches only once, and in which the end of the input stands, has
    matched there without consuming any input. -/
def StallsAtEnd (rules : RuleTable) (options : Options) (stream : TokenStream) : Prop :=
  ∃ abort track, rules.lastStep options .acceptAll stream.reader () = (.aborted abort, track) ∧
    rules.Stalls abort track

/-- Let no element of the rules look at what stands between the significant tokens.  Then
    matches of two streams with the same significant tokens end in the same way, with the
    same message, rule and notes and at the same significant token, whatever else stands in
    the streams.  They may end differently only if something stands in front of the mark at
    the end in one stream but not in the other, and the match of that other one is stopped
    at the end by a repeated element that may take each branch once. -/
theorem spacing_is_disregarded (rules : RuleTable) (options : Options) (left right : TokenStream)
    (hspacing : rules.ignoresSpacing = true) (hleft : left.Marked) (hright : right.Marked)
    (hsame : left.significant.map Token.content = right.significant.map Token.content) :
    Outcome.Alike left right (rules.matchFrom options .acceptAll left.reader ()).outcome
        (rules.matchFrom options .acceptAll right.reader ()).outcome ∨
      (left.Trails ∧ ¬right.Trails) ∧ rules.StallsAtEnd options right ∨
      (right.Trails ∧ ¬left.Trails) ∧ rules.StallsAtEnd options left := by
  have hlength : (left.ahead 0).length = (right.ahead 0).length := by
    have hlength := congrArg List.length hsame
    rwa [List.length_map, List.length_map, hleft.significant_eq, hright.significant_eq] at hlength
  have hroot : Option.Rel (List.Forall₂ (Setting.spacing rules left right).node)
      (rules.nodes? rootName) (rules.nodes? rootName) := by
    rcases hnodes : rules.nodes? rootName with _ | nodes
    · exact .none
    · refine .some (List.forall₂_same.2 fun node hnode => ⟨rfl, ?_⟩)
      exact has_of_nodes? hnodes node hnode
  have hstart : (Setting.spacing rules left right).track ⟨left.reader, [], none, ()⟩
      ⟨right.reader, [], none, ()⟩ := ⟨⟨.start hleft hright hsame, rfl⟩, .none⟩
  have hstep : (rules.setting options .acceptAll).InStep (rules.setting options .acceptAll)
      (Setting.spacing rules left right) := Setting.inStep_spacing rfl hspacing hleft hright
  have hpassages := hstep.matchRoot hstart rfl hroot fun _ _ h => ⟨rfl, h.toAbreast⟩
  rcases hlast : rules.lastStep options .acceptAll left.reader () with ⟨ending, t⟩
  rcases hlast' : rules.lastStep options .acceptAll right.reader () with ⟨ending', u⟩
  have hlines := usesLineEnds_of_ignoresSpacing hspacing
  have hruns : (rules.setting options .acceptAll).matchRoot left.reader () = (ending, t) := by
    rw [← hlast, lastStep_eq_matchRoot, hlines]
    rfl
  have hruns' : (rules.setting options .acceptAll).matchRoot right.reader () = (ending', u) := by
    rw [← hlast', lastStep_eq_matchRoot, hlines]
    rfl
  rw [hruns, hruns'] at hpassages
  rw [matchFrom_of_lastStep hlast, matchFrom_of_lastStep hlast']
  rcases Ending.outcome_alike hleft hright hlength hpassages options.requireEnd with
    halike | ⟨abort, rfl, htrails, hstalls⟩ | ⟨abort, rfl, htrails, hstalls⟩
  · exact .inl halike
  · exact .inr (.inl ⟨htrails, abort, u, hlast', hstalls⟩)
  · exact .inr (.inr ⟨htrails, abort, t, hlast, hstalls⟩)

/-- The tokens of the text ` a`, a line end, and ` x`. -/
def wordsApart : TokenStream where
  tokens :=
    #[⟨.beginning, "", ⟨0, 0⟩, 1, 1⟩, ⟨.space, " ", ⟨0, 1⟩, 1, 1⟩,
      ⟨.identifier, "a", ⟨1, 2⟩, 1, 2⟩, ⟨.line, "\n", ⟨2, 3⟩, 1, 3⟩,
      ⟨.space, " ", ⟨3, 4⟩, 2, 1⟩, ⟨.identifier, "x", ⟨4, 5⟩, 2, 2⟩]
  ending := ⟨.ending, "", ⟨5, 5⟩, 2, 3⟩

/-- Two streams of two words that do not match, both since the second word is not the end
    of the input. -/
theorem second_word_is_found_behind_any_space :
    oneWord.ignoresSpacing = true ∧ TokenStream.twoWords.Marked ∧ wordsApart.Marked ∧
    TokenStream.twoWords.significant.map Token.content =
      wordsApart.significant.map Token.content ∧
    (∃ diagnostic, (oneWord.matchFrom .default .acceptAll wordsApart.reader ()).outcome =
      .failure diagnostic) ∧
    Outcome.Alike .twoWords wordsApart
      (oneWord.matchFrom .default .acceptAll TokenStream.twoWords.reader ()).outcome
      (oneWord.matchFrom .default .acceptAll wordsApart.reader ()).outcome := by
  have hspacing : oneWord.ignoresSpacing = true := rfl
  have hleft : TokenStream.twoWords.Marked := ⟨rfl, by decide⟩
  have hright : wordsApart.Marked := ⟨rfl, by decide⟩
  have hsame : TokenStream.twoWords.significant.map Token.content =
      wordsApart.significant.map Token.content := by decide
  have hruns : ∃ track,
      (oneWord.setting .default .acceptAll).runWithin 2
          (oneWord.firstStep .default .acceptAll wordsApart.reader ()) =
        some (.matched, track) ∧ track.reader.atEnd = false := ⟨_, rfl, rfl⟩
  obtain ⟨track, hruns, hnotAtEnd⟩ := hruns
  have hlast : oneWord.lastStep .default .acceptAll wordsApart.reader () = (.matched, track) :=
    Setting.complete_of_runWithin hruns
  refine ⟨hspacing, hleft, hright, hsame, ?_, ?_⟩
  · rw [matchFrom_of_lastStep hlast, Ending.outcome, hnotAtEnd]
    exact ⟨_, rfl⟩
  · rcases oneWord.spacing_is_disregarded .default _ _ hspacing hleft hright hsame with
      halike | ⟨⟨htrails, -⟩, -⟩ | ⟨⟨htrails, -⟩, -⟩
    · exact halike
    · cases htrails.2
    · cases htrails.2

/-- The rules `ROOT := [ ID | EOF ]$*`. -/
def wordOrEnd : RuleTable where
  rules :=
    [⟨rootName,
      [.alternation { Modifiers.plain with repeated := true } ⟨8, 22⟩
        [[.terminal .plain ⟨10, 12⟩ (.ofCategory .identifier)],
          [.terminal .plain ⟨15, 18⟩ (.ofCategory .endOfInput)]] true], ⟨0, 22⟩⟩]

/-- A match of one word is stopped, since the alternation matches the end of the input
    without consuming any.  With a space behind the word it succeeds: the reader gets past
    the space once, and the alternation does not take its branch for the end again. -/
theorem trailing_space_lets_repetition_end :
    let lexer := (Grammar.ofRules wordOrEnd).lexer
    Grammar.compile "ROOT := [ ID | EOF ]$*" = .ok (.ofRules wordOrEnd) ∧
    wordOrEnd.ignoresSpacing = true ∧
    (lexer.tokenize "a").significant.map Token.content =
      (lexer.tokenize "a ").significant.map Token.content ∧
    (∃ diagnostic, (wordOrEnd.matchFrom .default .acceptAll (lexer.tokenize "a").reader ()).outcome =
      .fatal diagnostic) ∧
    (wordOrEnd.matchFrom .default .acceptAll (lexer.tokenize "a ").reader ()).outcome = .success := by
  intro lexer
  have hfatal : (wordOrEnd.matchFrom .default .acceptAll (lexer.tokenize "a").reader ()).outcome =
      .fatal ⟨2, ⟨1, 1⟩, 1, 2, "`[ ID | EOF ]$*` repeats without consuming any input", rootName,
        []⟩ :=
    eq_of_map_matchWithin Result.outcome 20 (by decide +kernel)
  have hsuccess : (wordOrEnd.matchFrom .default .acceptAll (lexer.tokenize "a ").reader
      ()).outcome = .success := eq_of_map_matchWithin Result.outcome 20 (by decide +kernel)
  exact ⟨by decide +kernel, rfl, by decide +kernel, ⟨_, hfatal⟩, hsuccess⟩

end RuleTable

end TokenGrammar
