/-
  TokenGrammar.Proofs.Match.LineEnds

  Matching is blind to what ends the lines.  In two streams that are the same but for line
  ends every terminal comes out alike at the same position: it looks at the classes of
  tokens, and at the texts of those that are neither white space nor line ends
  (`Terminal.matchAt_alike`).  What is said of a token that does not match may differ, since
  white space is shown with its text; but no run goes by that.

  Main statement: `Lexer.line_ends_are_disregarded`.
-/

import TokenGrammar.Proofs.Lexer.LineEnds
import TokenGrammar.Proofs.Match.Return
import TokenGrammar.Proofs.Match.SideBySide

namespace TokenGrammar

-- ============================================================================
-- Readers side by side
-- ============================================================================

namespace Token.SameButLineEnds

variable {token other : Token}

theorem isSkippable_eq (h : token.SameButLineEnds other) (skipLines : Bool) :
    token.isSkippable skipLines = other.isSkippable skipLines := by
  rw [isSkippable, isSkippable, h.cls_eq]

/-- Tokens that are something to read have the same text. -/
theorem text_eq_of_cls (h : token.SameButLineEnds other) {cls : TokenClass} (hcls : token.cls = cls)
    (hspace : cls ≠ .space) (hline : cls ≠ .line) : token.text = other.text :=
  h.text_eq (hcls ▸ hspace) (hcls ▸ hline)

theorem isSymbol_eq (h : token.SameButLineEnds other) (text : String) :
    token.isSymbol text = other.isSymbol text := by
  unfold isSymbol
  rw [← h.cls_eq]
  by_cases hcls : token.cls = .symbol
  · rw [h.text_eq_of_cls hcls nofun nofun]
  · rw [beq_eq_false_iff_ne.2 hcls]
    rfl

end Token.SameButLineEnds

theorem TokenStream.SameButLineEnds.last_eq {left right : TokenStream}
    (h : left.SameButLineEnds right) : left.last = right.last :=
  Nat.succ.inj h.size_eq

theorem TokenStream.SameButLineEnds.seekSignificant_eq {left right : TokenStream}
    (h : left.SameButLineEnds right) (skipLines : Bool) (steps position : Nat) :
    left.seekSignificant skipLines steps position =
      right.seekSignificant skipLines steps position := by
  induction steps generalizing position with
  | zero => rfl
  | succ steps ih =>
      unfold seekSignificant
      rw [(h.get position).isSkippable_eq, ih]

/-- Two readers at the same position of two streams. -/
structure Reader.Beside (left right : TokenStream) (reader other : Reader) : Prop where
  stream_eq : reader.stream = left
  stream_eq' : other.stream = right
  position_eq : reader.position = other.position
  skipLines_eq : reader.skipLines = other.skipLines

namespace Reader.Beside

variable {left right : TokenStream} {reader other : Reader}

theorem checkpoint_eq (h : Beside left right reader other) :
    reader.checkpoint = other.checkpoint := by
  rw [checkpoint, checkpoint, h.position_eq, h.skipLines_eq]

theorem seek (h : Beside left right reader other) (checkpoint : Checkpoint) :
    Beside left right (reader.seek checkpoint) (other.seek checkpoint) :=
  ⟨h.stream_eq, h.stream_eq', rfl, rfl⟩

theorem moveTo (h : Beside left right reader other) (position : Nat) :
    Beside left right (reader.moveTo position) (other.moveTo position) :=
  ⟨h.stream_eq, h.stream_eq', rfl, h.skipLines_eq⟩

variable (hstreams : left.SameButLineEnds right)

include hstreams

theorem remaining_eq (h : Beside left right reader other) : reader.remaining = other.remaining := by
  rw [remaining, remaining, TokenStream.remaining, TokenStream.remaining, h.stream_eq,
    h.stream_eq', hstreams.last_eq, h.position_eq]

theorem significantPosition_eq (h : Beside left right reader other) :
    reader.significantPosition = other.significantPosition := by
  rw [significantPosition, significantPosition, h.remaining_eq hstreams, h.position_eq,
    h.skipLines_eq, h.stream_eq, h.stream_eq', hstreams.seekSignificant_eq]

theorem peek (h : Beside left right reader other) : reader.peek.SameButLineEnds other.peek := by
  rw [Reader.peek, Reader.peek, h.significantPosition_eq hstreams, h.stream_eq, h.stream_eq']
  exact hstreams.get _

theorem peekAdjacent (h : Beside left right reader other) :
    reader.peekAdjacent.SameButLineEnds other.peekAdjacent := by
  rw [Reader.peekAdjacent, Reader.peekAdjacent, h.position_eq, h.stream_eq, h.stream_eq']
  exact hstreams.get _

theorem consume (h : Beside left right reader other) :
    Beside left right reader.consume other.consume := by
  unfold Reader.consume
  rw [h.stream_eq, h.stream_eq', hstreams.last_eq, h.position_eq]
  split
  · exact h.moveTo _
  · exact h

theorem atEnd_eq (h : Beside left right reader other) : reader.atEnd = other.atEnd := by
  rw [atEnd, atEnd, h.significantPosition_eq hstreams, h.stream_eq, h.stream_eq', hstreams.last_eq]

/-- The first token of a terminal is at the same position in both streams. -/
theorem next (h : Beside left right reader other) (adjacent : Bool) :
    (reader.next adjacent).position = (other.next adjacent).position ∧
      (reader.next adjacent).token.SameButLineEnds (other.next adjacent).token ∧
      Beside left right (reader.next adjacent).after (other.next adjacent).after := by
  unfold Reader.next
  cases adjacent with
  | true =>
      simp only [if_true]
      rw [← (h.peekAdjacent hstreams).cls_eq]
      split
      · have hconsumed := h.consume hstreams
        exact ⟨hconsumed.position_eq, hconsumed.peekAdjacent hstreams, hconsumed.consume hstreams⟩
      · exact ⟨h.position_eq, h.peekAdjacent hstreams, h.consume hstreams⟩
  | false =>
      simp only [Bool.false_eq_true, if_false]
      refine ⟨h.significantPosition_eq hstreams, h.peek hstreams, ?_⟩
      rw [Reader.read, Reader.read, h.significantPosition_eq hstreams]
      exact (h.moveTo _).consume hstreams

end Reader.Beside

-- ============================================================================
-- Terminals
-- ============================================================================

/-- Two attempts to read something that miss at the same position, or read what is
    related. -/
inductive ReadsAlike {α : Type} (related : α → α → Prop) : Except Miss α → Except Miss α → Prop where
  | miss (position : Nat) (mismatch mismatch' : Mismatch) :
      ReadsAlike related (.error ⟨position, mismatch⟩) (.error ⟨position, mismatch'⟩)
  | read {a b : α} (h : related a b) : ReadsAlike related (.ok a) (.ok b)

namespace PartialNumber

/-- Two numbers of which as many tokens have been read. -/
def Beside (left right : TokenStream) (number other : PartialNumber) : Prop :=
  Reader.Beside left right number.reader other.reader

variable {left right : TokenStream} {number other : PartialNumber}
  (hstreams : left.SameButLineEnds right)

include hstreams

theorem Beside.take (h : Beside left right number other) :
    Beside left right number.take other.take :=
  Reader.Beside.consume hstreams h

theorem Beside.next (h : Beside left right number other) :
    number.next.SameButLineEnds other.next :=
  Reader.Beside.peekAdjacent hstreams h

theorem Beside.takeSign (h : Beside left right number other) :
    Beside left right number.takeSign other.takeSign := by
  unfold PartialNumber.takeSign
  rw [(h.next hstreams).isSymbol_eq, (h.next hstreams).isSymbol_eq]
  split
  · exact h.take hstreams
  · exact h

theorem Beside.withoutPoint (h : Beside left right number other) (mismatch : Mismatch) :
    ReadsAlike (Beside left right) (number.withoutPoint mismatch) (other.withoutPoint mismatch) := by
  unfold PartialNumber.withoutPoint
  rw [(h.next hstreams).isSymbol_eq, Reader.Beside.position_eq h]
  split
  · exact .miss _ _ _
  · exact .read h

theorem Beside.readExponent (h : Beside left right number other) (position : Nat)
    (rest : List Char) :
    ReadsAlike (Beside left right) (number.readExponent position rest)
      (other.readExponent position rest) := by
  have hsigned := h.takeSign hstreams
  have hdigits := hsigned.next hstreams
  unfold PartialNumber.readExponent
  dsimp only
  rw [← hdigits.cls_eq, ← Reader.Beside.position_eq hsigned]
  split
  · by_cases hcls : number.takeSign.next.cls = .identifier
    · rw [← hdigits.text_eq_of_cls hcls nofun nofun]
      split
      · exact (hsigned.take hstreams).withoutPoint hstreams _
      · exact .miss _ _ _
    · rw [beq_eq_false_iff_ne.2 hcls]
      exact .miss _ _ _
  · split
    · exact h.withoutPoint hstreams _
    · exact .miss _ _ _

theorem Beside.readFraction (h : Beside left right number other) (base : NumberBase) :
    ReadsAlike (Beside left right) (number.readFraction base) (other.readFraction base) := by
  have hfraction := h.next hstreams
  unfold PartialNumber.readFraction
  dsimp only
  rw [← hfraction.cls_eq, ← Reader.Beside.position_eq h]
  by_cases hcls : number.next.cls = .identifier
  · rw [← hfraction.text_eq_of_cls hcls nofun nofun, beq_iff_eq.2 hcls]
    simp only [if_true]
    split
    · exact .miss _ _ _
    · exact (h.take hstreams).readExponent hstreams _ _
    · split
      · exact .miss _ _ _
      · exact (h.take hstreams).withoutPoint hstreams _
  · rw [beq_eq_false_iff_ne.2 hcls]
    exact .miss _ _ _

theorem Beside.readRest (h : Beside left right number other) (htext : number.text = other.text)
    (position : Nat) :
    ReadsAlike (Beside left right) (number.readRest position) (other.readRest position) := by
  unfold PartialNumber.readRest
  rw [← htext]
  dsimp only
  split
  · exact .miss _ _ _
  · exact h.readExponent hstreams _ _
  · rw [(h.next hstreams).isSymbol_eq]
    split
    · exact (h.take hstreams).readFraction hstreams _
    · exact .read h

end PartialNumber

/-- What a terminal matched from the same position on in two streams, and the readers
    behind it. -/
def Matched.Beside (left right : TokenStream) (matched other : Matched × Reader) : Prop :=
  matched.1.position = other.1.position ∧ Reader.Beside left right matched.2 other.2

/-- A terminal that is a single token goes by its class, and by its text if it is something
    to read. -/
theorem Terminal.holds_eq_of_sameButLineEnds {token other : Token}
    (h : token.SameButLineEnds other) (pattern : Terminal) :
    pattern.holds token = pattern.holds other := by
  by_cases hread : token.cls ≠ .space ∧ token.cls ≠ .line
  · have htext := h.text_eq hread.1 hread.2
    unfold holds isInteger
    rw [h.cls_eq, htext]
  · have hcls : token.cls = .space ∨ token.cls = .line := by
      by_contra hneither
      exact hread (not_or.1 hneither)
    have hcls' := h.cls_eq
    unfold holds isInteger
    rcases hcls with hcls | hcls <;> rw [hcls] at hcls' <;> simp only [hcls, ← hcls'] <;> rfl

section Terminals

variable {left right : TokenStream} {reader other : Reader}
  (hstreams : left.SameButLineEnds right)

include hstreams

theorem matchNumber_alike (h : Reader.Beside left right reader other) (adjacent : Bool) :
    ReadsAlike (Matched.Beside left right) (matchNumber adjacent reader)
      (matchNumber adjacent other) := by
  obtain ⟨hposition, htoken, hafter⟩ := h.next hstreams adjacent
  unfold matchNumber
  dsimp only
  rw [← hposition, ← htoken.cls_eq]
  by_cases hcls : (reader.next adjacent).token.cls = .identifier
  · have htext := htoken.text_eq_of_cls hcls nofun nofun
    rw [← htext]
    split
    · have hstart : PartialNumber.Beside left right
          ⟨(reader.next adjacent).token.text, (reader.next adjacent).token.span.stop,
            (reader.next adjacent).after⟩
          ⟨(reader.next adjacent).token.text, (other.next adjacent).token.span.stop,
            (other.next adjacent).after⟩ := hafter
      have hrest := hstart.readRest hstreams rfl (reader.next adjacent).position
      generalize PartialNumber.readRest _ _ = result at hrest ⊢
      generalize PartialNumber.readRest _ _ = result' at hrest ⊢
      cases hrest with
      | miss => exact .miss _ _ _
      | read hnumber => exact .read ⟨rfl, hnumber⟩
    · exact .miss _ _ _
  · rw [beq_eq_false_iff_ne.2 hcls]
    exact .miss _ _ _

theorem matchString_alike (h : Reader.Beside left right reader other) (adjacent : Bool) :
    ReadsAlike (Matched.Beside left right) (matchString adjacent reader)
      (matchString adjacent other) := by
  obtain ⟨hposition, htoken, hafter⟩ := h.next hstreams adjacent
  have hpayload := hafter.peekAdjacent hstreams
  unfold matchString
  dsimp only
  rw [← hposition, ← htoken.cls_eq, ← hpayload.cls_eq]
  by_cases hcls : (reader.next adjacent).token.cls = .symbol
  · rw [← htoken.text_eq_of_cls hcls nofun nofun]
    split
    · -- The string is over behind the comment that it holds, if it holds anything.
      have hbehind : ∀ {behind behind' : Reader}, Reader.Beside left right behind behind' →
          ∀ text text', ReadsAlike (Matched.Beside left right)
            (if behind.peekAdjacent.isSymbol (reader.next adjacent).token.text then
              .ok (⟨.string, text, (reader.next adjacent).token.span.through
                behind.peekAdjacent.span, (reader.next adjacent).position⟩, behind.consume)
            else .error ⟨behind.position, .unterminatedString (reader.next adjacent).token.text⟩)
            (if behind'.peekAdjacent.isSymbol (reader.next adjacent).token.text then
              .ok (⟨.string, text', (other.next adjacent).token.span.through
                behind'.peekAdjacent.span, (reader.next adjacent).position⟩, behind'.consume)
            else .error ⟨behind'.position,
              .unterminatedString (reader.next adjacent).token.text⟩) := by
        intro behind behind' hbehind text text'
        rw [(hbehind.peekAdjacent hstreams).isSymbol_eq, hbehind.position_eq]
        split
        · exact .read ⟨rfl, hbehind.consume hstreams⟩
        · exact .miss _ _ _
      split
      · exact hbehind (hafter.consume hstreams) _ _
      · exact hbehind hafter _ _
    · exact .miss _ _ _
  · rw [beq_eq_false_iff_ne.2 hcls]
    exact .miss _ _ _

theorem Terminal.matchAt_alike (h : Reader.Beside left right reader other) (pattern : Terminal)
    (adjacent : Bool) :
    ReadsAlike (Matched.Beside left right) (pattern.matchAt adjacent reader)
      (pattern.matchAt adjacent other) := by
  obtain ⟨hposition, htoken, hafter⟩ := h.next hstreams adjacent
  have hsingle : ReadsAlike (Matched.Beside left right) (pattern.matchSingle adjacent reader)
      (pattern.matchSingle adjacent other) := by
    unfold matchSingle
    dsimp only
    rw [← hposition, ← Terminal.holds_eq_of_sameButLineEnds htoken]
    split
    · exact .read ⟨rfl, hafter⟩
    · exact .miss _ _ _
  unfold matchAt
  split
  · exact matchNumber_alike hstreams h adjacent
  · exact matchString_alike hstreams h adjacent
  · exact hsingle

end Terminals

-- ============================================================================
-- Runs
-- ============================================================================

/-- Two failures at the same position and in the same rule. -/
structure Reach.SamePlace (reach other : Reach Failure) : Prop where
  position_eq : reach.position = other.position
  rule_eq : reach.rule = other.rule

theorem Reach.SamePlace.offer {kept kept' : Option (Reach Failure)} {reach other : Reach Failure}
    (h : reach.SamePlace other) (hkept : Option.Rel Reach.SamePlace kept kept') :
    Option.Rel Reach.SamePlace (Reach.offer kept reach) (Reach.offer kept' other) := by
  cases hkept with
  | none => exact .some h
  | @some kept kept' hkept =>
      have hfurther : reach.isFurther (some kept) = other.isFurther (some kept') := by
        rw [isFurther, isFurther, hkept.position_eq, h.position_eq]
      unfold Reach.offer
      rw [hfurther]
      split
      · exact .some h
      · exact .some hkept

namespace Track

variable {left right : TokenStream} {t u : Track Unit}

/-- Two tracks at the same position of two streams, with the same rules open, whose
    furthest failures have the same place. -/
structure Beside (left right : TokenStream) (t u : Track Unit) : Prop where
  reader : Reader.Beside left right t.reader u.reader
  scopes_eq : t.scopes = u.scopes
  reach_rel : Option.Rel Reach.SamePlace t.reach u.reach

theorem Beside.scope_eq (h : Beside left right t u) : t.scope = u.scope := by
  rw [scope, scope, h.scopes_eq]

theorem Beside.withReader (h : Beside left right t u) {reader other : Reader}
    (hreader : Reader.Beside left right reader other) :
    Beside left right (t.withReader reader) (u.withReader other) :=
  ⟨hreader, h.scopes_eq, h.reach_rel⟩

theorem Beside.offer (h : Beside left right t u) (position : Nat) (f g : Failure) :
    Beside left right (t.offer position f) (u.offer position g) :=
  ⟨h.reader, h.scopes_eq, Reach.SamePlace.offer ⟨rfl, h.scope_eq⟩ h.reach_rel⟩

theorem Beside.offerHere (hstreams : left.SameButLineEnds right) (h : Beside left right t u)
    (f g : Failure) : Beside left right (t.offerHere f) (u.offerHere g) := by
  rw [Track.offerHere, Track.offerHere, h.reader.significantPosition_eq hstreams]
  exact h.offer _ f g

end Track

namespace Setting

/-- Runs in two streams that are the same but for line ends. -/
def lineEnds (left right : TokenStream) : Pairing Unit Unit where
  node m n := m = n
  track := Track.Beside left right
  failure _ _ := True
  stop _ t _ u := Track.Beside left right t u

variable {setting : Setting Unit} {left right : TokenStream}

/-- Matching by itself does the same in two streams that are the same but for line ends. -/
theorem inStep_lineEnds (hlistener : setting.listener = .acceptAll)
    (hstreams : left.SameButLineEnds right) :
    setting.InStep setting (lineEnds left right) where
  alike := by
    rintro node _ rfl
    exact Node.alike_self setting.rules.passes_true (fun _ _ => rfl) trivial
  modifiers := by
    rintro node _ rfl
    exact ⟨rfl, rfl, rfl⟩
  enter name h := by
    rw [told_acceptAll hlistener, told_acceptAll hlistener]
    exact .matched ⟨h.reader, congrArg (name :: ·) h.scopes_eq, h.reach_rel⟩
  leave name h := by
    rw [told_acceptAll hlistener, told_acceptAll hlistener]
    exact .matched h
  closeRule h := ⟨h.reader, congrArg List.tail h.scopes_eq, h.reach_rel⟩
  offerHere _ h := h.offerHere hstreams _ _
  wentBack hs ht := by
    rw [wentBack_acceptAll hlistener, wentBack_acceptAll hlistener, hs.reader.checkpoint_eq]
    exact .matched (ht.withReader (ht.reader.seek _))
  terminal := by
    rintro modifiers _ span _ pattern _ t u hnode h
    cases hnode
    have hmatch := Terminal.matchAt_alike hstreams h.reader pattern modifiers.adjacent
    unfold matchTerminal
    generalize pattern.matchAt modifiers.adjacent t.reader = result at hmatch ⊢
    generalize pattern.matchAt modifiers.adjacent u.reader = result' at hmatch ⊢
    cases hmatch with
    | miss => exact .failed trivial (h.offer _ _ _)
    | read hread =>
        simp only [tell_eq_resume, told_acceptAll hlistener]
        exact .matched (h.withReader hread.2)
  noAlternative _ := trivial
  emptyAlternation := trivial
  alreadySet _ := trivial
  undefinedRule _ h := h
  recursionLimit h := h
  fatalElement _ h := h
  emptyRepetition _ h := h
  onlyLeft _ _ _ _ h _ _ hafter hfurther hnot :=
    absurd (hafter.reader.remaining_eq hstreams ▸ h.reader.remaining_eq hstreams ▸ hfurther) hnot
  onlyRight _ _ _ _ h _ _ hafter hnot hfurther :=
    absurd (hafter.reader.remaining_eq hstreams ▸ h.reader.remaining_eq hstreams ▸ hfurther) hnot

end Setting

-- ============================================================================
-- Outcomes
-- ============================================================================

/-- Two diagnostics for the same position and line and for the same rule. -/
structure Diagnostic.SamePlace (diagnostic other : Diagnostic) : Prop where
  position_eq : diagnostic.position = other.position
  line_eq : diagnostic.line = other.line
  rule_eq : diagnostic.rule = other.rule

/-- Two outcomes of one kind for the same place. -/
inductive Outcome.SamePlace : Outcome → Outcome → Prop where
  | success : SamePlace .success .success
  | failure {diagnostic other : Diagnostic} (h : diagnostic.SamePlace other) :
      SamePlace (.failure diagnostic) (.failure other)
  | fatal {diagnostic other : Diagnostic} (h : diagnostic.SamePlace other) :
      SamePlace (.fatal diagnostic) (.fatal other)

theorem Diagnostic.SamePlace.withNotes {diagnostic other : Diagnostic}
    (h : diagnostic.SamePlace other) (text text' : String) :
    (diagnostic.withNotes text).SamePlace (other.withNotes text') := by
  obtain ⟨hposition, hline, hrule⟩ := h
  unfold Diagnostic.withNotes
  split <;> split <;> exact ⟨hposition, hline, hrule⟩

section Outcomes

variable {left right : TokenStream} (hstreams : left.SameButLineEnds right)

include hstreams

theorem Diagnostic.samePlace_atToken (position : Nat) (message message' rule : String) :
    (atToken left position message rule).SamePlace (atToken right position message' rule) :=
  ⟨rfl, (hstreams.get position).line_eq, rfl⟩

theorem Track.Beside.furthest {t u : Track Unit} (h : Beside left right t u)
    {notes notes' : Option String} (hnotes : notes.isSome = notes'.isSome) :
    (t.furthest notes).SamePlace (u.furthest notes') := by
  have hreach := h.reach_rel
  unfold Track.furthest
  rw [h.reader.significantPosition_eq hstreams, h.reader.stream_eq, h.reader.stream_eq']
  generalize t.reach = kept at hreach ⊢
  generalize u.reach = kept' at hreach ⊢
  have hplaced := @Diagnostic.samePlace_atToken left right hstreams
  cases notes with
  | none =>
      obtain rfl : notes' = none := by simpa using hnotes.symm
      cases hreach with
      | none => exact hplaced _ _ _ _
      | some hplace =>
          dsimp only
          rw [hplace.position_eq, hplace.rule_eq]
          exact hplaced _ _ _ _
  | some text =>
      obtain ⟨text', rfl⟩ := Option.isSome_iff_exists.1 hnotes.symm
      cases hreach with
      | none => exact (hplaced _ _ _ _).withNotes text text'
      | some hplace =>
          dsimp only
          rw [hplace.position_eq, hplace.rule_eq]
          exact (hplaced _ _ _ _).withNotes text text'

/-- Runs that come out alike tell of the same place, and leave the reader there. -/
theorem Ending.outcome_samePlace {ending ending' : Ending} {t u : Track Unit}
    (h : (Setting.lineEnds left right).Passages (ending, t) (ending', u)) (requireEnd : Bool) :
    Outcome.SamePlace (ending.outcome requireEnd t) (ending'.outcome requireEnd u) ∧
      t.reader.position = u.reader.position := by
  cases h with
  | exemptLeft h => exact h.elim
  | exemptRight h => exact h.elim
  | stopped h =>
      refine ⟨.fatal ?_, h.reader.position_eq⟩
      rw [h.scope_eq, h.reader.significantPosition_eq hstreams, h.reader.stream_eq,
        h.reader.stream_eq']
      exact Diagnostic.samePlace_atToken hstreams _ _ _ _
  | failed _ h => exact ⟨.failure (h.furthest hstreams rfl), h.reader.position_eq⟩
  | matched h =>
      refine ⟨?_, h.reader.position_eq⟩
      unfold Ending.outcome
      dsimp only
      rw [h.reader.atEnd_eq hstreams]
      split
      · exact .failure ((h.offerHere hstreams _ _).furthest hstreams rfl)
      · exact .success

/-- Matches of two streams that are the same but for line ends tell of the same place. -/
theorem RuleTable.samePlace_matchFrom (rules : RuleTable) (options : Options) (position : Nat) :
    let result := rules.matchFrom options .acceptAll (left.reader.moveTo position) ()
    let other := rules.matchFrom options .acceptAll (right.reader.moveTo position) ()
    result.outcome.SamePlace other.outcome ∧ result.reader.position = other.reader.position := by
  have hroot : Option.Rel (List.Forall₂ (Setting.lineEnds left right).node)
      (rules.nodes? rootName) (rules.nodes? rootName) := by
    rcases rules.nodes? rootName with _ | nodes
    · exact .none
    · exact .some (List.forall₂_same.2 fun _ _ => rfl)
  have hstep : (rules.setting options .acceptAll).InStep (rules.setting options .acceptAll)
      (Setting.lineEnds left right) := Setting.inStep_lineEnds rfl hstreams
  rcases hlast : rules.lastStep options .acceptAll (left.reader.moveTo position) () with
    ⟨ending, t⟩
  rcases hlast' : rules.lastStep options .acceptAll (right.reader.moveTo position) () with
    ⟨ending', u⟩
  have hpassages : (Setting.lineEnds left right).Passages (ending, t) (ending', u) := by
    rw [← hlast, ← hlast', RuleTable.lastStep_eq_matchRoot, RuleTable.lastStep_eq_matchRoot]
    exact hstep.matchRoot ⟨⟨rfl, rfl, rfl, rfl⟩, rfl, .none⟩ rfl hroot fun _ _ h => h
  rw [matchFrom_of_lastStep hlast, matchFrom_of_lastStep hlast']
  exact Ending.outcome_samePlace hstreams hpassages options.requireEnd

end Outcomes

namespace Lexer

/-- Line ends do not matter.  If no registered word holds a line break, a text without
    carriage returns has as many tokens as the one with a carriage return in front of each
    line feed.  They have the same classes and lines, the same texts unless they are white
    space or line ends, and the same columns unless they are line ends.  So any rules match
    both texts or neither, with any options and from any position, and what they tell of
    has the same position, line and rule. -/
theorem line_ends_are_disregarded (lexer : Lexer) (text : String) (hlines : lexer.StaysInLines)
    (hreturn : '\r' ∉ text.toList) :
    let stream := lexer.tokenize text
    let returned := lexer.tokenize (Text.withReturns text)
    stream.SameButLineEnds returned ∧
      ∀ (rules : RuleTable) (options : Options) (position : Nat),
        let result := rules.matchFrom options .acceptAll (stream.reader.moveTo position) ()
        let other := rules.matchFrom options .acceptAll (returned.reader.moveTo position) ()
        result.outcome.SamePlace other.outcome ∧
          result.reader.position = other.reader.position := by
  intro stream returned
  have hstreams : stream.SameButLineEnds returned := sameButLineEnds_tokenize hlines hreturn
  exact ⟨hstreams, fun rules options position =>
    RuleTable.samePlace_matchFrom hstreams rules options position⟩

/-- A word with a blank and a line end behind it, and a comment on the next line.  The match
    of a single word gets to the end of the text, with returns as without them. -/
theorem word_in_front_of_comment_matches_with_returns :
    let lexer := Lexer.base.withLineComment "#"
    let text := "a \n# c\n"
    let result := RuleTable.oneWord.matchFrom .default .acceptAll
      (lexer.tokenize (Text.withReturns text)).reader ()
    lexer.StaysInLines ∧ '\r' ∉ text.toList ∧ result.outcome = .success ∧
      result.reader.position = 2 := by
  intro lexer text result
  have hlines : lexer.StaysInLines := by decide
  have hreturn : '\r' ∉ text.toList := by decide
  have hmatches : (RuleTable.oneWord.matchFrom .default .acceptAll (lexer.tokenize text).reader
      ()).outcome = .success :=
    RuleTable.eq_of_map_matchWithin Result.outcome 10 (by decide +kernel)
  have hstops : (RuleTable.oneWord.matchFrom .default .acceptAll (lexer.tokenize text).reader
      ()).reader.position = 2 :=
    RuleTable.eq_of_map_matchWithin (fun result => result.reader.position) 10 (by decide +kernel)
  obtain ⟨hplace, hposition⟩ :=
    (lexer.line_ends_are_disregarded text hlines hreturn).2 RuleTable.oneWord .default 0
  change Outcome.SamePlace (RuleTable.matchFrom _ _ _ (lexer.tokenize text).reader _).outcome
    result.outcome at hplace
  rw [hmatches] at hplace
  refine ⟨hlines, hreturn, ?_, hposition.symm.trans hstops⟩
  generalize result.outcome = outcome at hplace ⊢
  cases hplace
  rfl

end Lexer

end TokenGrammar
