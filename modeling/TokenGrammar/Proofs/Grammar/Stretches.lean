/-
  TokenGrammar.Proofs.Grammar.Stretches

  The source of a grammar as a row of stretches, each of which is what one pass of the
  lexer takes off the source: a word, a sign, a literal, blanks, a comment, a line end, or
  a backslash that continues a line.  A stretch ends where it does because of the character
  behind it at most (`Stretch.EndsBefore`), so that stretches taken out of a source are
  taken off again in front of anything that ends the last of them (`Stretch.Row.before`).

  Main statements: the source of a grammar is such a row (`Grammar.exists_stretches`), and
  its items are those of its stretches (`Grammar.sourceItems_of_row`).
-/

import TokenGrammar.Proofs.Grammar.Joining
import TokenGrammar.Proofs.Grammar.Relexing
import TokenGrammar.Proofs.Lexer.Comments
import TokenGrammar.Proofs.Match.Strings

namespace TokenGrammar

-- ============================================================================
-- Stretches
-- ============================================================================

/-- What one pass of the lexer takes off the source of a grammar. -/
inductive Stretch where
  | word (text : String)
  | sign (text : String)
  | literal (quote : Char) (held : List Char)
  | blanks (run : List Char)
  | comment (text : List Char)
  | lineEnd (taken : List Char)
  | continuation (taken : List Char)

/-- The characters that end a line. -/
def IsLineEnd (taken : List Char) : Prop := taken = ['\n'] ∨ taken = ['\r', '\n']

theorem IsLineEnd.lineEnd?_append {taken : List Char} (h : IsLineEnd taken) (rest : List Char) :
    lineEnd? (taken ++ rest) = some (taken, rest) := by
  rcases h with rfl | rfl <;> rfl

theorem isLineEnd_of_lineEnd? {text taken rest : List Char}
    (h : lineEnd? text = some (taken, rest)) : IsLineEnd taken := by
  unfold lineEnd? at h
  split at h
  · exact .inl (Prod.mk.inj (Option.some.inj h)).1.symm
  · exact .inr (Prod.mk.inj (Option.some.inj h)).1.symm
  · cases h

namespace Stretch

/-- The characters of a stretch. -/
def chars : Stretch → List Char
  | .word text => text.toList
  | .sign text => text.toList
  | .literal quote held => quote :: (held ++ [quote])
  | .blanks run => run
  | .comment text => text
  | .lineEnd taken => taken
  | .continuation taken => '\\' :: taken

/-- The lexemes of a stretch. -/
def lexemes : Stretch → List Lexeme
  | .word text => [⟨wordClass text, text.toList, false⟩]
  | .sign text => [⟨.symbol, text.toList, false⟩]
  | .literal quote held => [quoteLexeme quote, ⟨.comment, held, false⟩, quoteLexeme quote]
  | .blanks run => [⟨.space, run, false⟩]
  | .comment text => [⟨.comment, text, false⟩]
  | .lineEnd taken => [⟨.line, taken, true⟩]
  | .continuation taken => [⟨.space, '\\' :: taken, true⟩]

/-- Whether a stretch holds what its kind says. -/
def Sound : Stretch → Prop
  | .word text => IsWordText text.toList
  | .sign text => text ∈ Grammar.signs
  | .literal quote held => quote ∈ literalQuotes ∧ held ≠ [] ∧ IsHeld quote held
  | .blanks run => run ≠ [] ∧ ∀ c ∈ run, isBlank c = true
  | .comment text => text.head? = some '#' ∧ ∀ c ∈ text, isLineBreak c = false
  | .lineEnd taken => IsLineEnd taken
  | .continuation taken => IsLineEnd taken

/-- Whether a stretch goes no further in front of some text. -/
def EndsBefore (stretch : Stretch) (rest : List Char) : Prop :=
  match stretch with
  | .word _ => ∀ c ∈ rest.head?, isWord c = false
  | .blanks run => ∀ c ∈ rest.head?, isBlank c = false ∧ (run = ['\r'] → c ≠ '\n')
  | .comment _ => ∀ c ∈ rest.head?, isLineBreak c = true
  | _ => True

/-- Where a stretch ends is up to the next character. -/
theorem EndsBefore.of_head? {stretch : Stretch} {rest more : List Char}
    (h : stretch.EndsBefore rest) (hhead : more.head? = rest.head?) : stretch.EndsBefore more := by
  cases stretch with
  | word => exact fun c hc => h c (hhead ▸ hc)
  | blanks => exact fun c hc => h c (hhead ▸ hc)
  | comment => exact fun c hc => h c (hhead ▸ hc)
  | sign => trivial
  | literal => trivial
  | lineEnd => trivial
  | continuation => trivial

theorem Sound.chars_ne_nil {stretch : Stretch} (h : stretch.Sound) : stretch.chars ≠ [] := by
  cases stretch with
  | word => exact h.1
  | sign text =>
      have hsigns : Grammar.signs.all (!·.toList.isEmpty) = true := by decide
      have hne := List.all_eq_true.1 hsigns text h
      rw [Bool.not_eq_true', List.isEmpty_eq_false_iff] at hne
      exact hne
  | literal => exact List.cons_ne_nil _ _
  | blanks => exact h.1
  | comment text =>
      rintro hnil
      rw [Sound, show text = [] from hnil] at h
      cases h.1
  | lineEnd => rcases h with rfl | rfl <;> exact List.cons_ne_nil _ _
  | continuation => exact List.cons_ne_nil _ _

theorem sound_blank : (blanks [' ']).Sound :=
  ⟨List.cons_ne_nil _ _, List.forall_mem_singleton.2 (by decide)⟩

theorem flatMap_text_lexemes (stretch : Stretch) :
    stretch.lexemes.flatMap Lexeme.text = stretch.chars := by
  cases stretch <;> simp [lexemes, chars, quoteLexeme]

theorem isQuote_of_mem_literalQuotes {quote : Char} (h : quote ∈ literalQuotes) : IsQuote quote := by
  have hsubset : literalQuotes ⊆ defaultQuotes := by decide
  exact isQuote_of_mem (hsubset h)

/-- Blanks in front of something else are no line end. -/
theorem lineEnd?_of_endsBefore {run rest : List Char} (hsound : (blanks run).Sound)
    (hends : (blanks run).EndsBefore rest) : lineEnd? (run ++ rest) = none := by
  obtain ⟨hne, hblank⟩ := hsound
  obtain ⟨first, run, rfl⟩ := List.exists_cons_of_ne_nil hne
  have hfeed : first ≠ '\n' := by
    rintro rfl
    exact absurd (hblank '\n' List.mem_cons_self) (by decide)
  by_cases hreturn : first = '\r'
  · subst hreturn
    rcases run with _ | ⟨second, run⟩
    · rcases rest with _ | ⟨c, rest⟩
      · rfl
      · have hc : c ≠ '\n' := (hends c rfl).2 rfl
        simp [lineEnd?, hc]
    · have hsecond : second ≠ '\n' := by
        rintro rfl
        exact absurd (hblank '\n' (by simp)) (by decide)
      simp [lineEnd?, hsecond]
  · simp [lineEnd?, hfeed, hreturn]

theorem beginsComment_append {text : List Char} (h : (comment text).Sound) (rest : List Char) :
    Grammar.sourceLexer.BeginsComment (text ++ rest) := by
  obtain ⟨hhead, -⟩ := h
  obtain ⟨more, rfl⟩ := List.head?_eq_some_iff.1 hhead
  have hbare : IsBare '#' (more ++ rest) := ⟨by decide, fun h => absurd h (by decide)⟩
  exact ⟨hbare, "#", rfl, List.prefix_append ['#'] (more ++ rest)⟩

/-- A stretch is taken off a text in front of what ends it. -/
theorem lexemes_append {stretch : Stretch} (hsound : stretch.Sound) {rest : List Char}
    (hends : stretch.EndsBefore rest) :
    Grammar.sourceLexer.lexemes (stretch.chars ++ rest) =
      stretch.lexemes ++ Grammar.sourceLexer.lexemes rest := by
  cases stretch with
  | word text => exact Grammar.lexemes_word hsound hends
  | sign text => exact Grammar.lexemes_sign hsound rest
  | literal quote held =>
      obtain ⟨hquote, hne, hheld⟩ := hsound
      have hpayload := payload_of_isHeld (isQuote_of_mem_literalQuotes hquote) hheld rest
      rw [chars, List.cons_append, List.append_assoc, List.singleton_append,
        Grammar.lexemes_quoted hquote, scanQuoted_of_closed hpayload, payloadLexemes,
        if_neg (by simpa using hne)]
      rfl
  | blanks run =>
      have hblank : ∀ c ∈ rest.head?, isBlank c = false := fun c hc => (hends c hc).1
      exact Grammar.sourceLexer.lexemes_blanks_append hsound.1 hsound.2 hblank
        (lineEnd?_of_endsBefore hsound hends)
  | comment text =>
      have hrest : ∀ c ∈ rest.head?, (!isLineBreak c) = false := by
        intro c hc
        rw [hends c hc]
        rfl
      have htext : ∀ c ∈ text, (!isLineBreak c) = true := by
        intro c hc
        rw [hsound.2 c hc]
        rfl
      rw [chars, Lexer.lexemes_of_beginsComment (beginsComment_append hsound rest),
        takeWhile_append_of_head hrest, dropWhile_append_of_head hrest,
        List.takeWhile_eq_self_iff.2 htext, List.dropWhile_eq_nil_iff.2 htext]
      rfl
  | lineEnd taken =>
      exact Grammar.sourceLexer.lexemes_lineEnd_append (IsLineEnd.lineEnd?_append hsound rest)
  | continuation taken =>
      exact Grammar.sourceLexer.lexemes_continuation_append
        (IsLineEnd.lineEnd?_append hsound rest)

-- ============================================================================
-- Rows
-- ============================================================================

/-- Stretches each of which ends where the next one begins, and the last one in front of
    some text. -/
def Row : List Stretch → List Char → Prop
  | [], _ => True
  | stretch :: more, rest =>
    stretch.Sound ∧ stretch.EndsBefore (more.flatMap chars ++ rest) ∧ Row more rest

theorem row_append_iff {stretches more : List Stretch} {rest : List Char} :
    Row (stretches ++ more) rest ↔ Row stretches (more.flatMap chars ++ rest) ∧ Row more rest := by
  induction stretches with
  | nil => exact ⟨fun h => ⟨trivial, h⟩, And.right⟩
  | cons stretch others ih =>
      rw [List.cons_append, Row, Row, ih, List.flatMap_append, List.append_assoc, and_assoc,
        and_assoc]

theorem Row.sound {stretches : List Stretch} {rest : List Char} (h : Row stretches rest) :
    ∀ stretch ∈ stretches, stretch.Sound := by
  induction stretches with
  | nil => exact fun _ hmem => nomatch hmem
  | cons stretch more ih => exact List.forall_mem_cons.2 ⟨h.1, ih h.2.2⟩

/-- Only the last of some stretches has to do with what follows them. -/
theorem Row.before {stretches : List Stretch} {last : Stretch} {rest more : List Char}
    (h : Row (stretches ++ [last]) rest) (hends : last.EndsBefore more) :
    Row (stretches ++ [last]) more := by
  induction stretches with
  | nil => exact ⟨h.1, hends, trivial⟩
  | cons stretch others ih =>
      obtain ⟨hsound, hstretch, hrow⟩ : stretch.Sound ∧
        stretch.EndsBefore ((others ++ [last]).flatMap chars ++ rest) ∧ Row (others ++ [last]) rest := h
      have hne : (others ++ [last]).flatMap chars ≠ [] := by
        have hlast : last.chars ≠ [] := (Row.sound hrow last (by simp)).chars_ne_nil
        simp [hlast]
      have hhead : ((others ++ [last]).flatMap chars ++ more).head? =
          ((others ++ [last]).flatMap chars ++ rest).head? := by
        rw [List.head?_append_of_ne_nil _ hne, List.head?_append_of_ne_nil _ hne]
      exact ⟨hsound, hstretch.of_head? hhead, ih hrow⟩

/-- Stretches in a row are taken off one by one. -/
theorem Row.lexemes_eq {stretches : List Stretch} {rest : List Char} (h : Row stretches rest) :
    Grammar.sourceLexer.lexemes (stretches.flatMap chars ++ rest) =
      stretches.flatMap lexemes ++ Grammar.sourceLexer.lexemes rest := by
  induction stretches with
  | nil => rfl
  | cons stretch more ih =>
      obtain ⟨hsound, hends, hrow⟩ := h
      rw [List.flatMap_cons, List.append_assoc, lexemes_append hsound hends, ih hrow,
        List.flatMap_cons, List.append_assoc]

end Stretch

-- ============================================================================
-- Sources
-- ============================================================================

namespace Grammar

/-- A character that nothing begins with is a symbol by itself. -/
theorem lexemes_stray {c : Char} {text : List Char} (hbare : IsBare c text)
    (hcomment : ¬ sourceLexer.BeginsComment (c :: text)) (hquote : c ∉ literalQuotes)
    (hword : isWord c = false) (hsign : ∀ sign ∈ signs, ¬ sign.toList <+: c :: text) :
    sourceLexer.lexemes (c :: text) = ⟨.symbol, [c], false⟩ :: sourceLexer.lexemes text := by
  have hkeyword : sourceLexer.scanKeyword (c :: text) = none := by
    cases hscan : sourceLexer.scanKeyword (c :: text) with
    | none => rfl
    | some scan =>
        obtain ⟨word, hmem, rest, happend, -, -⟩ := of_scanWord_eq_some hscan
        obtain ⟨hne, hall⟩ := isWordText_of_mem_keywords hmem
        obtain ⟨first, more, hmore⟩ := List.exists_cons_of_ne_nil hne
        rw [hmore, List.cons_append] at happend
        have hfirst := hall first (by simp [hmore])
        rw [(List.cons.inj happend).1, hword] at hfirst
        cases hfirst
  have hsymbol : sourceLexer.scanSymbol (c :: text) = none := by
    cases hscan : sourceLexer.scanSymbol (c :: text) with
    | none => rfl
    | some scan =>
        obtain ⟨sign, hmem, rest, happend, -, -⟩ := of_scanWord_eq_some hscan
        have hmem : sign ∈ signs := (mem_sortLongestFirst.1 hmem).1
        exact absurd ⟨rest, happend⟩ (hsign sign hmem)
  have hrun : scanRun .identifier isWord (c :: text) = none := by
    rw [scanRun, hword]
    rfl
  rw [Lexer.lexemes_cons, sourceLexer.scan_of_isBare hbare,
    Lexer.scanComment_eq_none hbare hcomment, Option.getD_none,
    if_neg (show c ∉ sourceLexer.quotes from hquote), Lexer.scanWords]
  simp only [List.findSome?_cons, hkeyword, hsymbol, hrun]
  rfl

end Grammar

namespace Stretch

/-- Whether a source begins with a stretch. -/
def Begins (text : List Char) : Prop :=
  ∃ (stretch : Stretch) (rest : List Char), text = stretch.chars ++ rest ∧ stretch.Sound ∧
    stretch.EndsBefore rest

/-- White space begins a stretch, and so does a backslash in front of a line end. -/
theorem begins_of_not_isBare {c : Char} {text : List Char} (h : ¬ IsBare c text) :
    Begins (c :: text) := by
  cases hline : lineEnd? (c :: text) with
  | some found =>
      obtain ⟨taken, rest⟩ := found
      exact ⟨.lineEnd taken, rest, (append_of_lineEnd? hline).1.symm,
        isLineEnd_of_lineEnd? hline, trivial⟩
  | none =>
      by_cases hblank : isBlank c = true
      · obtain ⟨run, rest, hsplit, hne, hrun, hrest⟩ := exists_blanks hblank text
        refine ⟨.blanks run, rest, hsplit, ⟨hne, hrun⟩, fun next hnext => ⟨hrest next hnext, ?_⟩⟩
        rintro rfl rfl
        obtain ⟨more, rfl⟩ := List.head?_eq_some_iff.1 hnext
        rw [hsplit] at hline
        cases hline
      · have hfeed : c ≠ '\n' := by
          rintro rfl
          cases hline
        have hwhite : Unicode.isWhiteSpace c = false :=
          isWhiteSpace_eq_false_of_isBlank (Bool.eq_false_iff.2 hblank) hfeed
        by_cases hbackslash : c = '\\'
        · subst hbackslash
          cases hbehind : lineEnd? text with
          | none => exact absurd ⟨hwhite, fun _ => hbehind⟩ h
          | some found =>
              obtain ⟨taken, rest⟩ := found
              exact ⟨.continuation taken, rest,
                congrArg ('\\' :: ·) (append_of_lineEnd? hbehind).1.symm,
                isLineEnd_of_lineEnd? hbehind, trivial⟩
        · exact absurd ⟨hwhite, fun h => absurd h hbackslash⟩ h

theorem begins_of_beginsComment {text : List Char}
    (h : Grammar.sourceLexer.BeginsComment text) : Begins text := by
  rcases text with _ | ⟨c, text⟩
  · cases h
  obtain ⟨-, opening, hopening, hbegins⟩ := h
  obtain rfl : "#" = opening := Option.some.inj hopening
  obtain ⟨more, hmore⟩ := hbegins
  obtain rfl : '#' = c := (List.cons.inj hmore).1
  refine ⟨.comment (('#' :: text).takeWhile (!isLineBreak ·)),
    ('#' :: text).dropWhile (!isLineBreak ·), ?_, ⟨rfl, fun c hc => ?_⟩, fun c hc => ?_⟩
  · rw [chars, List.takeWhile_append_dropWhile]
  · have hnot := List.all_eq_true.1 List.all_takeWhile c hc
    simpa using hnot
  · simpa using eq_false_of_mem_head?_dropWhile c hc

theorem begins_of_isWord {c : Char} (h : isWord c = true) (text : List Char) :
    Begins (c :: text) := by
  refine ⟨.word (String.ofList ((c :: text).takeWhile isWord)), (c :: text).dropWhile isWord,
    ?_, ?_, eq_false_of_mem_head?_dropWhile⟩
  · rw [chars, String.toList_ofList, List.takeWhile_append_dropWhile]
  · rw [Sound, String.toList_ofList]
    exact ⟨by simp [h], List.all_eq_true.1 List.all_takeWhile⟩

/-- A source begins with a stretch, unless it begins with a quote or with a character that
    nothing begins with. -/
theorem begins_or (c : Char) (text : List Char) :
    Begins (c :: text) ∨ c ∈ literalQuotes ∨
      c ∉ literalQuotes ∧ String.singleton c ∉ Grammar.signs ∧
        Grammar.sourceLexer.lexemes (c :: text) =
          ⟨.symbol, [c], false⟩ :: Grammar.sourceLexer.lexemes text := by
  by_cases hbare : IsBare c text
  swap
  · exact .inl (begins_of_not_isBare hbare)
  by_cases hcomment : Grammar.sourceLexer.BeginsComment (c :: text)
  · exact .inl (begins_of_beginsComment hcomment)
  by_cases hquote : c ∈ literalQuotes
  · exact .inr (.inl hquote)
  by_cases hword : isWord c = true
  · exact .inl (begins_of_isWord hword text)
  by_cases hsign : ∃ sign ∈ Grammar.signs, sign.toList <+: c :: text
  · obtain ⟨sign, hmem, rest, hrest⟩ := hsign
    exact .inl ⟨.sign sign, rest, hrest.symm, hmem, trivial⟩
  · have hnone : ∀ sign ∈ Grammar.signs, ¬ sign.toList <+: c :: text :=
      fun sign hmem hbegins => hsign ⟨sign, hmem, hbegins⟩
    refine .inr (.inr ⟨hquote, fun hmem => hnone _ hmem ?_, Grammar.lexemes_stray hbare hcomment
      hquote (Bool.eq_false_iff.2 hword) hnone⟩)
    rw [String.toList_singleton]
    exact ⟨text, rfl⟩

end Stretch

namespace Draft

variable {draft later : Draft} {token : Token} {table : RuleTable} {cursor : Cursor}

/-- Between items the symbols that are read are quotes and signs. -/
theorem Reads.mem_signs (h : Reads draft token later) (hbetween : draft.place.BetweenItems)
    (hcls : token.cls = .symbol) (hquote : openingQuote? token = none) :
    token.text ∈ Grammar.signs := by
  have hsign : ∀ text ∈ Grammar.signs, token.isSymbol text = true → token.text ∈ Grammar.signs :=
    fun text hmem htext => (Token.isSymbol_iff.1 htext).2 ▸ hmem
  cases h with
  | skip h => exact absurd hcls (Place.cls_ne_symbol_of_mayStepOver h)
  | stop h =>
      rw [hcls] at h
      cases h
  | name h =>
      rw [isRuleName, hcls] at h
      cases h
  | define h => exact hsign _ (by decide) h
  | endRule halternations h =>
      rw [hcls] at h
      rcases h with h | h <;> cases h
  | bar halternations helements h => exact hsign _ (by decide) h
  | close halternations helements h => exact hsign _ (by decide) h
  | @suffix _ _ _ _ _ _ suffix helements h =>
      exact hsign _ (by cases suffix <;> decide) (Suffix.isSymbol_of_ofToken? h)
  | tilde h => exact hsign _ (by decide) h
  | quote hplace h =>
      rw [hquote] at h
      cases h
  | bracket hplace h => exact hsign _ (by decide) h
  | category hplace h =>
      rw [hcls] at h
      cases h
  | reference hplace h =>
      rw [hcls] at h
      cases h
  | payload => cases hbetween
  | endLiteral => cases hbetween

/-- At a line break, or at the end of a source, no literal goes on. -/
theorem cls_of_placeAll_break {text : List Char} (hbreak : AtBreak text) {next : Token}
    {more : List Token}
    (h : cursor.placeAll (Grammar.sourceLexer.lexemes text) = next :: more) :
    next.cls ∈ [TokenClass.line, .space, .ending] := by
  rcases text with _ | ⟨c, text⟩
  · rw [Lexer.lexemes_nil] at h
    rw [← (List.cons.inj h).1]
    exact List.mem_of_elem_eq_true rfl
  · obtain ⟨lexeme, others, hlexemes, hcls⟩ :=
      Grammar.lexemes_lineBreak (hbreak c rfl) text
    rw [hlexemes, Cursor.placeAll_cons] at h
    rw [← (List.cons.inj h).1]
    have hmore : [TokenClass.line, .space] ⊆ [.line, .space, .ending] := by decide
    exact hmore hcls

/-- A quote in the source of a grammar opens a literal that is closed and not empty. -/
theorem Completes.exists_held {quote : Char} {text : List Char} (hquote : quote ∈ literalQuotes)
    (hbetween : draft.place.BetweenItems)
    (h : draft.Completes (cursor.placeAll (Grammar.sourceLexer.lexemes (quote :: text))) table) :
    ∃ held rest, text = held ++ quote :: rest ∧ held ≠ [] ∧ IsHeld quote held := by
  have hisQuote := Stretch.isQuote_of_mem_literalQuotes hquote
  have hmark : openingQuote? (cursor.token (quoteLexeme quote)) = some quote :=
    Piece.openingQuote?_mark hquote cursor
  have hopens : (openingQuote? (cursor.token (quoteLexeme quote))).isSome = true := by
    rw [hmark]
    rfl
  rw [Grammar.lexemes_quoted hquote] at h
  obtain ⟨held, left, hpayload⟩ : ∃ held left, payload quote text = (held, left) := ⟨_, _, rfl⟩
  have hwhole := append_payload quote text
  rw [hpayload] at hwhole
  by_cases hclosed : ∃ rest, left = quote :: rest
  · obtain ⟨rest, rfl⟩ := hclosed
    refine ⟨held, rest, hwhole.symm, ?_, isHeld_of_payload hisQuote hpayload⟩
    rintro rfl
    -- The second of two quotes is no payload.
    rw [scanQuoted_of_closed hpayload] at h
    obtain ⟨middle, hreads, hrest⟩ := h
    obtain ⟨rule, opening, rfl, -⟩ := hreads.quoted hbetween hopens
    obtain ⟨payload, close, behind, hsplit, hliteral⟩ := Completes.afterQuote hopens hrest
    have hcls := (isLiteral_iff.1 hliteral).2.1
    rw [← (List.cons.inj hsplit).1] at hcls
    cases hcls
  · exfalso
    have hstops : ∀ c ∈ left.head?, isLineBreak c = true ∧ c ≠ quote := by
      intro c hc
      have hne : c ≠ quote := by
        rintro rfl
        exact hclosed (List.head?_eq_some_iff.1 hc)
      have hstop := payload_stops quote text c (by rw [hpayload]; exact hc)
      exact ⟨hstop.resolve_right hne, hne⟩
    rw [scanQuoted_of_open hpayload fun c hc => (hstops c hc).2] at h
    have hbreak : AtBreak left := fun c hc => (hstops c hc).1
    obtain ⟨middle, hreads, hrest⟩ := h
    obtain ⟨rule, opening, rfl, -⟩ := hreads.quoted hbetween hopens
    obtain ⟨payload, close, behind, hsplit, hliteral⟩ := Completes.afterQuote hopens hrest
    obtain ⟨-, hcomment, hclose⟩ := isLiteral_iff.1 hliteral
    by_cases hheld : held = []
    · subst hheld
      have hcls := cls_of_placeAll_break hbreak hsplit
      rw [hcomment] at hcls
      exact absurd hcls (by decide)
    · rw [payloadLexemes, if_neg (by simpa using hheld)] at hsplit
      have hcls := cls_of_placeAll_break hbreak (List.cons.inj hsplit).2
      rw [(Token.isSymbol_iff.1 hclose).1] at hcls
      exact absurd hcls (by decide)

/-- Behind a stretch reading stands between items again. -/
theorem Completes.behind_stretch {stretch : Stretch} {rest : List Char} (hsound : stretch.Sound)
    (hends : stretch.EndsBefore rest) (hbetween : draft.place.BetweenItems)
    (h : draft.Completes
      (cursor.placeAll (Grammar.sourceLexer.lexemes (stretch.chars ++ rest))) table) :
    ∃ middle : Draft, middle.place.BetweenItems ∧ middle.Completes
      ((cursor.afterAll stretch.lexemes).placeAll (Grammar.sourceLexer.lexemes rest)) table := by
  rw [Stretch.lexemes_append hsound hends, Cursor.placeAll_append] at h
  obtain ⟨middle, hstretch, hrest⟩ := runs_append_iff.1 h
  refine ⟨middle, ?_, hrest⟩
  have hsingle : ∀ lexeme : Lexeme, stretch.lexemes = [lexeme] →
      openingQuote? (cursor.token lexeme) = none → middle.place.BetweenItems := by
    intro lexeme hlexemes hquote
    rw [hlexemes] at hstretch
    obtain ⟨_, hreads, rfl⟩ := hstretch
    rcases hreads.between hbetween with ⟨h, -⟩ | ⟨h, -⟩
    · exact h
    · rw [hquote] at h
      cases h
  cases stretch with
  | word text =>
      refine hsingle _ rfl (openingQuote?_eq_none_of_cls ?_)
      rcases Piece.cls_word text with hcls | hcls
      · exact fun h => absurd (hcls.symm.trans h) (by decide)
      · exact fun h => absurd (hcls.symm.trans h) (by decide)
  | sign text => exact hsingle _ rfl (Piece.openingQuote?_sign hsound cursor)
  | blanks =>
      exact hsingle _ rfl (openingQuote?_eq_none_of_cls (show TokenClass.space ≠ .symbol by decide))
  | comment =>
      exact hsingle _ rfl (openingQuote?_eq_none_of_cls (show TokenClass.comment ≠ .symbol by decide))
  | lineEnd =>
      exact hsingle _ rfl (openingQuote?_eq_none_of_cls (show TokenClass.line ≠ .symbol by decide))
  | continuation =>
      exact hsingle _ rfl (openingQuote?_eq_none_of_cls (show TokenClass.space ≠ .symbol by decide))
  | literal quote held =>
      have hquote : (openingQuote? (cursor.token (quoteLexeme quote))).isSome = true := by
        have hmark : openingQuote? (cursor.token (quoteLexeme quote)) = some quote :=
          Piece.openingQuote?_mark hsound.1 cursor
        rw [hmark]
        rfl
      obtain ⟨_, hopen, _, hheld, _, hclose, rfl⟩ := hstretch
      obtain ⟨rule, opening, rfl, -⟩ := hopen.quoted hbetween hquote
      obtain ⟨-, rfl⟩ := hheld.payload_eq
      obtain ⟨-, rfl⟩ := hclose.endLiteral_eq
      trivial

/-- Whatever completes a grammar is a row of stretches.  The induction is on the length of
    the source that is left. -/
theorem Completes.exists_stretches {text : List Char} (hbetween : draft.place.BetweenItems)
    (h : draft.Completes (cursor.placeAll (Grammar.sourceLexer.lexemes text)) table) :
    ∃ stretches, Stretch.Row stretches [] ∧ stretches.flatMap Stretch.chars = text := by
  induction hlength : text.length using Nat.strong_induction_on generalizing text draft cursor with
  | _ length ih =>
  rcases text with _ | ⟨c, text⟩
  · exact ⟨[], trivial, rfl⟩
  obtain ⟨stretch, rest, hsplit, hsound, hends⟩ : ∃ (stretch : Stretch) (rest : List Char),
      c :: text = stretch.chars ++ rest ∧ stretch.Sound ∧ stretch.EndsBefore rest := by
    rcases Stretch.begins_or c text with hstretch | hquote | ⟨hquote, hsign, hstray⟩
    · exact hstretch
    · obtain ⟨held, rest, rfl, hne, hheld⟩ := h.exists_held hquote hbetween
      exact ⟨.literal c held, rest, by simp [Stretch.chars], ⟨hquote, hne, hheld⟩, trivial⟩
    · exfalso
      rw [hstray] at h
      obtain ⟨_, hreads, -⟩ := h
      have hnone : openingQuote? (cursor.token ⟨.symbol, [c], false⟩) = none := by
        rw [openingQuote?, Cursor.token, String.toList_ofList]
        simpa using hquote
      exact hsign (hreads.mem_signs hbetween rfl hnone)
  rw [hsplit] at h hlength ⊢
  obtain ⟨middle, hmiddle, hrest⟩ := h.behind_stretch hsound hends hbetween
  have hshorter : rest.length < length := by
    have hpos := List.length_pos_iff.2 hsound.chars_ne_nil
    rw [List.length_append] at hlength
    omega
  obtain ⟨more, hrow, hmore⟩ := ih rest.length hshorter hmiddle hrest rfl
  refine ⟨stretch :: more, ⟨hsound, ?_, hrow⟩, ?_⟩
  · rw [hmore, List.append_nil]
    exact hends
  · rw [List.flatMap_cons, hmore]

end Draft

-- ============================================================================
-- Items
-- ============================================================================

namespace Stretch

/-- The item of a stretch that stands at a place.  Blanks and comments are none. -/
def item? (cursor : Cursor) : Stretch → Option Item
  | .word text => some (.single (cursor.token ⟨wordClass text, text.toList, false⟩))
  | .sign text => some (.single (cursor.token ⟨.symbol, text.toList, false⟩))
  | .literal quote held =>
    let payload := cursor.after (quoteLexeme quote)
    let close := payload.after ⟨.comment, held, false⟩
    some (.literal (cursor.token (quoteLexeme quote)) (payload.token ⟨.comment, held, false⟩)
      (close.token (quoteLexeme quote)))
  | .lineEnd taken => some (.single (cursor.token ⟨.line, taken, true⟩))
  | _ => none

/-- Some stretches that follow each other from a place on, each with its place. -/
def placed (cursor : Cursor) : List Stretch → List (Cursor × Stretch)
  | [] => []
  | stretch :: more => (cursor, stretch) :: placed (cursor.afterAll stretch.lexemes) more

/-- The items of stretches with their places. -/
def items (stretches : List (Cursor × Stretch)) : List Item :=
  stretches.filterMap fun placed => placed.2.item? placed.1

theorem map_snd_placed (cursor : Cursor) (stretches : List Stretch) :
    (placed cursor stretches).map Prod.snd = stretches := by
  induction stretches generalizing cursor with
  | nil => rfl
  | cons stretch more ih => rw [placed, List.map_cons, ih]

/-- The tokens of a stretch make up its item. -/
theorem ofTokens_place_append {stretch : Stretch} (h : stretch.Sound) (cursor : Cursor)
    (rest : List Token) :
    Item.ofTokens (cursor.place stretch.lexemes ++ rest) =
      (stretch.item? cursor).toList ++ Item.ofTokens rest := by
  have hsingle : ∀ lexeme : Lexeme, openingQuote? (cursor.token lexeme) = none →
      Item.ofTokens (cursor.place [lexeme] ++ rest) =
        Item.ofToken (cursor.token lexeme) ++ Item.ofTokens rest :=
    fun lexeme hquote => Item.ofTokens_cons_of_openingQuote? hquote rest
  cases stretch with
  | word text =>
      have hcls : wordClass text ∉ [TokenClass.beginning, .space, .comment, .line, .symbol] := by
        rcases Piece.cls_word text with hcls | hcls
        · rw [hcls]
          decide
        · rw [hcls]
          decide
      have hsymbol : (cursor.token ⟨wordClass text, text.toList, false⟩).cls ≠ .symbol :=
        fun hsymbol => hcls (by simp [show wordClass text = .symbol from hsymbol])
      have hkept : ¬ (cursor.token ⟨wordClass text, text.toList, false⟩).isSkippable false = true := by
        rw [Token.isSkippable_eq_false false fun hmem => hcls (List.mem_append_left [.symbol] hmem)]
        exact Bool.false_ne_true
      rw [lexemes, hsingle _ (openingQuote?_eq_none_of_cls hsymbol), Item.ofToken, if_neg hkept]
      rfl
  | sign text =>
      rw [lexemes, hsingle _ (Piece.openingQuote?_sign h cursor)]
      rfl
  | literal quote held =>
      have hliteral : isLiteral (cursor.token (quoteLexeme quote))
          ((cursor.after (quoteLexeme quote)).token ⟨.comment, held, false⟩)
          (((cursor.after (quoteLexeme quote)).after ⟨.comment, held, false⟩).token
            (quoteLexeme quote)) = true := Piece.isLiteral_place h.1 held _ _ _
      rw [lexemes]
      simp only [Cursor.place, List.cons_append, List.nil_append]
      rw [Item.ofTokens, if_pos hliteral]
      rfl
  | blanks run =>
      exact hsingle _ (openingQuote?_eq_none_of_cls (show TokenClass.space ≠ .symbol by decide))
  | comment text =>
      exact hsingle _ (openingQuote?_eq_none_of_cls (show TokenClass.comment ≠ .symbol by decide))
  | lineEnd taken =>
      exact hsingle _ (openingQuote?_eq_none_of_cls (show TokenClass.line ≠ .symbol by decide))
  | continuation taken =>
      exact hsingle _ (openingQuote?_eq_none_of_cls (show TokenClass.space ≠ .symbol by decide))

/-- The tokens of stretches make up their items. -/
theorem ofTokens_place {stretches : List Stretch} (h : ∀ stretch ∈ stretches, stretch.Sound)
    (cursor : Cursor) (rest : List Token) :
    Item.ofTokens (cursor.place (stretches.flatMap lexemes) ++ rest) =
      items (placed cursor stretches) ++ Item.ofTokens rest := by
  induction stretches generalizing cursor with
  | nil => rfl
  | cons stretch more ih =>
      rw [List.flatMap_cons, Cursor.place_append, List.append_assoc,
        ofTokens_place_append (h stretch List.mem_cons_self),
        ih (fun stretch hmem => h stretch (List.mem_cons_of_mem _ hmem)), placed, items, items,
        List.filterMap_cons]
      cases stretch.item? cursor <;> rfl

end Stretch

namespace Grammar

/-- The source of a grammar is a row of stretches. -/
theorem exists_stretches {source : String} {grammar : Grammar} (h : compile source = .ok grammar) :
    ∃ stretches, Stretch.Row stretches [] ∧ source.toList = stretches.flatMap Stretch.chars := by
  obtain ⟨-, hcompletes⟩ := completes_of_compile h
  have hblank : Draft.blank.place.BetweenItems := trivial
  obtain ⟨stretches, hrow, hchars⟩ := hcompletes.exists_stretches hblank
  exact ⟨stretches, hrow, hchars.symm⟩

/-- The items of a source that is a row of stretches are those of the stretches, and the
    mark at the end. -/
theorem sourceItems_of_row {source : String} {stretches : List Stretch}
    (hrow : Stretch.Row stretches []) (hchars : source.toList = stretches.flatMap Stretch.chars) :
    sourceItems source = joinLines 0 (Stretch.items (Stretch.placed .beginning stretches) ++
      [.single (sourceLexer.tokenize source).ending]) := by
  have hlexemes := hrow.lexemes_eq
  rw [List.append_nil, ← hchars, Lexer.lexemes_nil, List.append_nil] at hlexemes
  have htokens : (sourceLexer.tokenize source).toList = Cursor.beginning.mark .beginning ::
      (Cursor.beginning.place (stretches.flatMap Stretch.lexemes) ++
        [(sourceLexer.tokenize source).ending]) := by
    rw [← hlexemes]
    rfl
  have hmark : openingQuote? (Cursor.beginning.mark .beginning) = none := rfl
  have hending : Item.ofTokens [(sourceLexer.tokenize source).ending] =
      [.single (sourceLexer.tokenize source).ending] := rfl
  rw [sourceItems, htokens, Item.ofTokens_cons_of_openingQuote? hmark,
    Stretch.ofTokens_place hrow.sound, hending]
  rfl

end Grammar

end TokenGrammar
