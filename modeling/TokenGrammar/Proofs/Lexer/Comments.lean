/-
  TokenGrammar.Proofs.Lexer.Comments

  What a line comment hides.  It is one lexeme up to the next line break
  (`Lexer.lexemes_of_beginsComment`), be that a line feed or a carriage return.  But a
  carriage return by itself ends no line: what stands behind it on the line of the comment
  is lexed like any other text.

  Main statement: `Lexer.comments_hide_up_to_line_breaks`.
-/

import TokenGrammar.Proofs.Lexer.Seams

namespace TokenGrammar

-- ============================================================================
-- Blanks behind a comment
-- ============================================================================

/-- Blanks are no line end if no line feed follows them. -/
theorem lineEnd?_blanks_append {blanks rest : List Char} (hne : blanks ≠ [])
    (hblanks : ∀ c ∈ blanks, isBlank c = true) (hrest : ∀ c ∈ rest.head?, c ≠ '\n') :
    lineEnd? (blanks ++ rest) = none := by
  have hfeed : ∀ c ∈ blanks, c ≠ '\n' := by
    rintro _ hc rfl
    exact absurd (hblanks _ hc) (by decide)
  obtain ⟨c, blanks, rfl⟩ := List.exists_cons_of_ne_nil hne
  rw [List.cons_append, lineEnd?]
  · rintro _ ⟨⟩
    exact hfeed _ List.mem_cons_self rfl
  · rintro behind heq
    obtain ⟨-, hbehind⟩ := List.cons.inj heq
    rcases blanks with _ | ⟨next, blanks⟩
    · rw [List.nil_append] at hbehind
      exact hrest '\n' (by rw [hbehind]; rfl) rfl
    · obtain ⟨rfl, -⟩ := List.cons.inj hbehind
      exact hfeed '\n' (by simp) rfl

-- ============================================================================
-- Where comments begin
-- ============================================================================

namespace Lexer

/-- A place in a text where a pass of a lexer begins, between what it has passed over and
    what is still ahead of it. -/
inductive StopsBetween (lexer : Lexer) : List Char → List Char → Prop
  | beginning (text : List Char) : lexer.StopsBetween [] text
  | after {before text : List Char} {c : Char} (h : lexer.StopsBetween before (c :: text)) :
      lexer.StopsBetween (before ++ (lexer.scan c text).lexemes.flatMap Lexeme.text)
        (lexer.scan c text).rest

/-- A text begins with a comment: with what begins comments, but with neither white space
    nor a continued line. -/
def BeginsComment (lexer : Lexer) : List Char → Prop
  | [] => False
  | c :: text => IsBare c text ∧ ∃ opening ∈ lexer.lineComment, opening.toList <+: c :: text

variable {lexer : Lexer}

/-- The lexemes of a text go on where a pass begins. -/
theorem StopsBetween.exists_passed {before ahead : List Char}
    (h : lexer.StopsBetween before ahead) :
    ∃ passed, passed.flatMap Lexeme.text = before ∧
      lexer.lexemes (before ++ ahead) = passed ++ lexer.lexemes ahead := by
  induction h with
  | beginning text => exact ⟨[], rfl, rfl⟩
  | @after before text c _ ih =>
      obtain ⟨passed, rfl, hlexemes⟩ := ih
      refine ⟨passed ++ (lexer.scan c text).lexemes, List.flatMap_append, ?_⟩
      rw [List.append_assoc, (lexer.takes_scan c text).whole, hlexemes, lexemes_cons,
        List.append_assoc]

theorem scanComment_eq_some {c : Char} {text : List Char} (h : lexer.BeginsComment (c :: text)) :
    lexer.scanComment (c :: text) = scanRun .comment (!isLineBreak ·) (c :: text) := by
  obtain ⟨-, opening, hopening, hprefix⟩ := h
  unfold scanComment
  rw [Option.mem_def.1 hopening]
  exact if_pos (List.isPrefixOf_iff_prefix.2 hprefix)

theorem scanComment_eq_none {c : Char} {text : List Char} (hbare : IsBare c text)
    (h : ¬ lexer.BeginsComment (c :: text)) : lexer.scanComment (c :: text) = none := by
  unfold scanComment
  split
  · next opening hopening =>
    refine if_neg fun hprefix => h ⟨hbare, opening, hopening, ?_⟩
    exact List.isPrefixOf_iff_prefix.1 hprefix
  · rfl

/-- A comment is one lexeme up to the next line break. -/
theorem lexemes_of_beginsComment {text : List Char} (h : lexer.BeginsComment text) :
    lexer.lexemes text = ⟨.comment, text.takeWhile (!isLineBreak ·), false⟩ ::
      lexer.lexemes (text.dropWhile (!isLineBreak ·)) := by
  rcases text with _ | ⟨c, text⟩
  · cases h
  have hinside : (!isLineBreak c) = true := by
    rw [h.1.isLineBreak_eq]
    rfl
  have hscan : lexer.scan c text = .single .comment ((c :: text).takeWhile (!isLineBreak ·))
      ((c :: text).dropWhile (!isLineBreak ·)) := by
    rw [lexer.scan_of_isBare h.1, scanComment_eq_some h, scanRun, if_pos hinside]
    rfl
  rw [lexemes_cons, hscan]
  rfl

/-- Blanks in front of a bare text are one space. -/
theorem lexemes_blanks_bare (lexer : Lexer) {blanks text : List Char} {c : Char}
    (hne : blanks ≠ []) (hblanks : ∀ c ∈ blanks, isBlank c = true) (hbare : IsBare c text) :
    lexer.lexemes (blanks ++ c :: text) = ⟨.space, blanks, false⟩ :: lexer.lexemes (c :: text) := by
  refine lexer.lexemes_blanks_append hne hblanks ?_ (lineEnd?_blanks_append hne hblanks ?_)
  · rintro _ ⟨⟩
    exact isBlank_eq_false_of_isWhiteSpace hbare.isWhiteSpace_eq
  · rintro _ ⟨⟩
    exact hbare.ne_of_isWhiteSpace '\n' (by decide)

/-- Where neither space nor a comment begins, a symbol, a keyword or an identifier does. -/
theorem exists_wordlike {c : Char} {text : List Char} (hbare : IsBare c text)
    (h : ¬ lexer.BeginsComment (c :: text)) :
    ∃ lexeme more, lexer.lexemes (c :: text) = lexeme :: more ∧
      lexeme.cls ∈ TokenClass.wordlike := by
  rw [lexemes_cons, lexer.scan_of_isBare hbare, scanComment_eq_none hbare h, Option.getD_none]
  by_cases hquote : c ∈ lexer.quotes
  · rw [if_pos hquote]
    obtain ⟨more, hmore⟩ : ∃ more, (scanQuoted c text).lexemes = ⟨.symbol, [c], false⟩ :: more := by
      unfold scanQuoted
      dsimp only
      split
      · split <;> exact ⟨_, rfl⟩
      · exact ⟨_, rfl⟩
    rw [hmore]
    exact ⟨_, _, rfl, List.mem_cons_self⟩
  · obtain ⟨cls, more, rest, hscan, -⟩ := lexer.exists_of_scanWords c text
    rw [if_neg hquote, hscan]
    exact ⟨_, _, rfl, cls_of_scanWords_eq hscan⟩

/-- On a line of blanks neither a symbol nor a keyword nor an identifier begins. -/
theorem exists_passed_of_blanks {text : List Char}
    (hblanks : ∀ c ∈ text.takeWhile (· != '\n'), isBlank c = true) :
    ∃ passed rest, lexer.lexemes text = passed ++ lexer.lexemes rest ∧
      text.takeWhile (· != '\n') <+: passed.flatMap Lexeme.text ∧
      ∀ lexeme ∈ passed, lexeme.cls ∉ TokenClass.wordlike := by
  let blanks := text.takeWhile (· != '\n')
  let rest := text.dropWhile (· != '\n')
  have hsplit : blanks ++ rest = text := List.takeWhile_append_dropWhile
  have hrest : ∀ c ∈ rest.head?, c = '\n' := by
    intro c hc
    simpa using eq_false_of_mem_head?_dropWhile c hc
  cases hline : lineEnd? text with
  | some found =>
      obtain ⟨taken, behind⟩ := found
      refine ⟨[⟨.line, taken, true⟩], behind, lexer.lexemes_lineEnd_append hline, ?_, ?_⟩
      · unfold lineEnd? at hline
        split at hline
        · cases hline
          exact List.nil_prefix
        · cases hline
          exact ⟨['\n'], rfl⟩
        · cases hline
      · intro lexeme hmem
        rw [List.mem_singleton.1 hmem]
        exact show TokenClass.line ∉ TokenClass.wordlike by decide
  | none =>
      by_cases hne : blanks = []
      · exact ⟨[], text, rfl, by rw [show text.takeWhile (· != '\n') = [] from hne]; rfl,
          fun _ h => nomatch h⟩
      have hbehind : ∀ c ∈ rest.head?, isBlank c = false := by
        intro c hc
        rw [hrest c hc]
        decide
      rw [← hsplit] at hline
      refine ⟨[⟨.space, blanks, false⟩], rest, ?_, ?_, ?_⟩
      · rw [← hsplit]
        exact lexer.lexemes_blanks_append hne hblanks hbehind hline
      · rw [List.flatMap_singleton]
      · intro lexeme hmem
        rw [List.mem_singleton.1 hmem]
        exact show TokenClass.space ∉ TokenClass.wordlike by decide

end Lexer

-- ============================================================================
-- Tokens
-- ============================================================================

/-- The tokens of some lexemes begin in front of the place behind them. -/
theorem Cursor.start_lt_of_mem_place {cursor : Cursor} {lexemes : List Lexeme}
    (hne : ∀ lexeme ∈ lexemes, lexeme.text ≠ []) {token : Token}
    (h : token ∈ cursor.place lexemes) : token.span.start < (cursor.afterAll lexemes).offset := by
  induction lexemes generalizing cursor with
  | nil => cases h
  | cons lexeme rest ih =>
      obtain ⟨hlexeme, hrest⟩ := List.forall_mem_cons.1 hne
      rcases List.mem_cons.1 h with rfl | h
      · have hpos := byteLength_pos hlexeme
        rw [offset_afterAll, List.flatMap_cons, byteLength_append]
        show cursor.offset < _
        omega
      · exact ih hrest h

namespace Lexer

variable {lexer : Lexer}

/-- A symbol, a keyword or an identifier that does not begin in front of lexemes of other
    classes begins behind them. -/
theorem le_start_of_wordlike {text : String} {passed others ahead : List Lexeme}
    (hlexemes : lexer.lexemes text.toList = passed ++ (others ++ ahead))
    (hothers : ∀ lexeme ∈ others, lexeme.cls ∉ TokenClass.wordlike) {token : Token}
    (h : token ∈ (lexer.tokenize text).toList) (hcls : token.cls ∈ TokenClass.wordlike)
    (hstart : byteLength (passed.flatMap Lexeme.text) ≤ token.span.start) :
    byteLength (passed.flatMap Lexeme.text) + byteLength (others.flatMap Lexeme.text) ≤
      token.span.start := by
  have hne : ∀ lexeme ∈ passed ++ (others ++ ahead), lexeme.text ≠ [] := by
    rw [← hlexemes]
    exact fun _ => ne_nil_of_mem_lexemes
  obtain ⟨hpassed, hrest⟩ := List.forall_mem_append.1 hne
  have hzero : Cursor.beginning.offset = 0 := rfl
  rw [toList_tokenize, hlexemes, Cursor.placeAll_append, Cursor.placeAll_append] at h
  rcases List.mem_cons.1 h with rfl | h
  · have hbeginning : TokenClass.beginning ∈ TokenClass.wordlike := hcls
    exact absurd hbeginning (by decide)
  rcases List.mem_append.1 h with h | h
  · have hlt := Cursor.start_lt_of_mem_place hpassed h
    rw [Cursor.offset_afterAll] at hlt
    omega
  rcases List.mem_append.1 h with h | h
  · obtain ⟨lexeme, hmem, place, rfl⟩ := Cursor.exists_of_mem_place h
    exact absurd hcls (hothers lexeme hmem)
  · have hle := (Cursor.le_start_of_mem_placeAll (List.forall_mem_append.1 hrest).2 h).1
    rw [Cursor.offset_afterAll, Cursor.offset_afterAll] at hle
    omega

/-- The token of a lexeme begins behind the lexemes in front of it. -/
theorem exists_token {text : String} {passed ahead : List Lexeme} {lexeme : Lexeme}
    (hlexemes : lexer.lexemes text.toList = passed ++ lexeme :: ahead) :
    ∃ token ∈ (lexer.tokenize text).toList, token.cls = lexeme.cls ∧
      token.text = String.ofList lexeme.text ∧
      token.span = ⟨byteLength (passed.flatMap Lexeme.text),
        byteLength (passed.flatMap Lexeme.text) + byteLength lexeme.text⟩ := by
  have hoffset : (Cursor.beginning.afterAll passed).offset =
      byteLength (passed.flatMap Lexeme.text) :=
    (Cursor.offset_afterAll _ _).trans (Nat.zero_add _)
  refine ⟨(Cursor.beginning.afterAll passed).token lexeme, ?_, rfl, rfl, ?_⟩
  · rw [toList_tokenize, hlexemes, Cursor.placeAll_append, Cursor.placeAll_cons]
    simp
  · rw [← hoffset]
    rfl

section Behind

variable {text : String} {passed : List Lexeme} {ahead : List Char}
  (hlexemes : lexer.lexemes text.toList = passed ++ lexer.lexemes ahead)
  (hcomment : lexer.BeginsComment ahead)
include hlexemes hcomment

/-- No symbol, keyword or identifier begins in a comment. -/
theorem le_start_of_comment {token : Token} (h : token ∈ (lexer.tokenize text).toList)
    (hcls : token.cls ∈ TokenClass.wordlike)
    (hstart : byteLength (passed.flatMap Lexeme.text) ≤ token.span.start) :
    byteLength (passed.flatMap Lexeme.text) +
      byteLength (ahead.takeWhile (!isLineBreak ·)) ≤ token.span.start := by
  let comment : Lexeme := ⟨.comment, ahead.takeWhile (!isLineBreak ·), false⟩
  have hother : TokenClass.comment ∉ TokenClass.wordlike := by decide
  have hsplit : lexer.lexemes text.toList =
      passed ++ ([comment] ++ lexer.lexemes (ahead.dropWhile (!isLineBreak ·))) := by
    rw [hlexemes, lexemes_of_beginsComment hcomment]
    rfl
  have hbehind := le_start_of_wordlike hsplit (List.forall_mem_singleton.2 hother) h hcls hstart
  rw [List.flatMap_singleton] at hbehind
  exact hbehind

/-- None begins up to the next line feed, if only blanks stand behind the comment. -/
theorem le_start_of_blanks
    (hblanks : ∀ c ∈ (ahead.dropWhile (!isLineBreak ·)).takeWhile (· != '\n'), isBlank c = true)
    {token : Token} (h : token ∈ (lexer.tokenize text).toList)
    (hcls : token.cls ∈ TokenClass.wordlike)
    (hstart : byteLength (passed.flatMap Lexeme.text) ≤ token.span.start) :
    byteLength (passed.flatMap Lexeme.text) + byteLength (ahead.takeWhile (!isLineBreak ·)) +
      byteLength ((ahead.dropWhile (!isLineBreak ·)).takeWhile (· != '\n')) ≤
        token.span.start := by
  let comment : Lexeme := ⟨.comment, ahead.takeWhile (!isLineBreak ·), false⟩
  have hother : TokenClass.comment ∉ TokenClass.wordlike := by decide
  obtain ⟨space, rest, hspace, ⟨more, hmore⟩, hspaces⟩ := lexer.exists_passed_of_blanks hblanks
  have hsplit : lexer.lexemes text.toList =
      passed ++ ((comment :: space) ++ lexer.lexemes rest) := by
    rw [hlexemes, lexemes_of_beginsComment hcomment, hspace]
    rfl
  have hbehind := le_start_of_wordlike hsplit (List.forall_mem_cons.2 ⟨hother, hspaces⟩) h hcls
    hstart
  have hbytes : byteLength comment.text = byteLength (ahead.takeWhile (!isLineBreak ·)) := rfl
  rw [List.flatMap_cons, byteLength_append, ← hmore, byteLength_append] at hbehind
  omega

/-- Behind a carriage return one begins, unless a comment or a continued line does. -/
theorem exists_token_behind_return {blanks rest : List Char} {c : Char}
    (hsplit : ahead.dropWhile (!isLineBreak ·) = blanks ++ c :: rest)
    (hblanks : ∀ b ∈ blanks, isBlank b = true) (hbare : IsBare c rest)
    (hnone : ¬ lexer.BeginsComment (c :: rest)) :
    ∃ token ∈ (lexer.tokenize text).toList, token.cls ∈ TokenClass.wordlike ∧
      token.span.start = byteLength (passed.flatMap Lexeme.text) +
        byteLength (ahead.takeWhile (!isLineBreak ·)) + byteLength blanks := by
  let comment : Lexeme := ⟨.comment, ahead.takeWhile (!isLineBreak ·), false⟩
  -- Behind a comment there is a line break, so that there are blanks.
  have hne : blanks ≠ [] := by
    rintro rfl
    have hhead : c ∈ (ahead.dropWhile (!isLineBreak ·)).head? := by
      rw [hsplit]
      rfl
    have hbreak := eq_false_of_mem_head?_dropWhile c hhead
    simp [hbare.isLineBreak_eq] at hbreak
  obtain ⟨lexeme, more, hmore, hcls⟩ := exists_wordlike hbare hnone
  have hwhole : lexer.lexemes text.toList =
      (passed ++ [comment, ⟨.space, blanks, false⟩]) ++ lexeme :: more := by
    rw [hlexemes, lexemes_of_beginsComment hcomment, hsplit,
      lexer.lexemes_blanks_bare hne hblanks hbare, hmore, List.append_assoc]
    rfl
  obtain ⟨token, htoken, hsame, -, hspan⟩ := exists_token hwhole
  refine ⟨token, htoken, hsame ▸ hcls, ?_⟩
  rw [hspan, List.flatMap_append, byteLength_append, List.flatMap_cons, List.flatMap_singleton,
    byteLength_append, ← Nat.add_assoc]

end Behind

/-- What a line comment hides.  It is one token up to the next line break, and neither a
    symbol nor a keyword nor an identifier begins in it.  If nothing but blanks stands
    between that break and the next line feed, none begins in front of the line feed.  But
    if the break is a carriage return and anything else stands behind it, a symbol, a
    keyword or an identifier begins there, unless a comment or a continued line does. -/
theorem comments_hide_up_to_line_breaks (lexer : Lexer) (text : String)
    (before ahead : List Char) (htext : text.toList = before ++ ahead)
    (hstops : lexer.StopsBetween before ahead) (hcomment : lexer.BeginsComment ahead) :
    let tokens := (lexer.tokenize text).toList
    let hidden := ahead.takeWhile (!isLineBreak ·)
    let behind := ahead.dropWhile (!isLineBreak ·)
    let exposed := behind.takeWhile (· != '\n')
    let start := byteLength before
    let stop := start + byteLength hidden
    (∃ token ∈ tokens, token.cls = .comment ∧ token.text = String.ofList hidden ∧
        token.span = ⟨start, stop⟩) ∧
      (∀ token ∈ tokens, token.cls ∈ TokenClass.wordlike → start ≤ token.span.start →
        stop ≤ token.span.start) ∧
      ((∀ c ∈ exposed, isBlank c = true) → ∀ token ∈ tokens, token.cls ∈ TokenClass.wordlike →
        start ≤ token.span.start → stop + byteLength exposed ≤ token.span.start) ∧
      (∀ blanks c rest, behind = blanks ++ c :: rest → (∀ b ∈ blanks, isBlank b = true) →
        IsBare c rest → ¬ lexer.BeginsComment (c :: rest) →
          ∃ token ∈ tokens, token.cls ∈ TokenClass.wordlike ∧
            token.span.start = stop + byteLength blanks) := by
  intro tokens hidden behind exposed start stop
  obtain ⟨passed, rfl, hlexemes⟩ := hstops.exists_passed
  rw [← htext] at hlexemes
  refine ⟨?_, ?_, ?_, ?_⟩
  · rw [lexemes_of_beginsComment hcomment] at hlexemes
    exact exists_token hlexemes
  · intro token htoken hcls hstart
    exact le_start_of_comment hlexemes hcomment htoken hcls hstart
  · intro hblanks token htoken hcls hstart
    exact le_start_of_blanks hlexemes hcomment hblanks htoken hcls hstart
  · intro blanks c rest hsplit hblanks hbare hnone
    exact exists_token_behind_return hlexemes hcomment hsplit hblanks hbare hnone

/-- A carriage return ends a comment, and the word behind it is not hidden. -/
theorem comment_hides_up_to_return :
    ∃ lexer : Lexer, lexer.StopsBetween ['x', ' '] ['#', 'a', '\r', 'b'] ∧
      lexer.BeginsComment ['#', 'a', '\r', 'b'] ∧ IsBare 'b' [] ∧ ¬ lexer.BeginsComment ['b'] ∧
      (∃ token ∈ (lexer.tokenize "x #a\rb").toList, token.cls = .comment ∧
        token.text = "#a" ∧ token.span = ⟨2, 4⟩) ∧
      ∃ token ∈ (lexer.tokenize "x #a\rb").toList, token.cls ∈ TokenClass.wordlike ∧
        token.span.start = 5 := by
  let lexer : Lexer := Lexer.base.withLineComment "#"
  have hword : lexer.StopsBetween ['x'] [' ', '#', 'a', '\r', 'b'] :=
    StopsBetween.after (.beginning ('x' :: [' ', '#', 'a', '\r', 'b']))
  have hstops : lexer.StopsBetween ['x', ' '] ['#', 'a', '\r', 'b'] := StopsBetween.after hword
  have hcomment : lexer.BeginsComment ['#', 'a', '\r', 'b'] :=
    ⟨⟨by decide, fun h => absurd h (by decide)⟩, "#", rfl, by decide⟩
  have hbare : IsBare 'b' [] := ⟨by decide, fun _ => rfl⟩
  have hnone : ¬ lexer.BeginsComment ['b'] := by
    rintro ⟨-, opening, ⟨⟩, hprefix⟩
    exact absurd hprefix (by decide)
  obtain ⟨htoken, -, -, hexposed⟩ := comments_hide_up_to_line_breaks lexer "x #a\rb" ['x', ' ']
    ['#', 'a', '\r', 'b'] rfl hstops hcomment
  exact ⟨lexer, hstops, hcomment, hbare, hnone, htoken,
    hexposed ['\r'] 'b' [] rfl (List.forall_mem_singleton.2 rfl) hbare hnone⟩

/-- So a word may begin between a comment and the next line feed, or the end of the text. -/
theorem return_exposes_word :
    ∃ lexer : Lexer, lexer.StaysInLines ∧ lexer.BeginsComment ['#', ' ', 'a', '\r', 'b'] ∧
      lexer.StopsBetween [] ['#', ' ', 'a', '\r', 'b'] ∧
      ∃ token ∈ (lexer.tokenize "# a\rb").toList, token.cls = .identifier ∧
        byteLength [] ≤ token.span.start ∧
        token.span.start < byteLength (['#', ' ', 'a', '\r', 'b'].takeWhile (· != '\n')) := by
  refine ⟨Lexer.base.withLineComment "#", by decide, ?_, .beginning _,
    ⟨.identifier, "b", ⟨4, 5⟩, 1, 5⟩, ?_, rfl, by decide, by decide⟩
  · exact ⟨⟨by decide, fun h => absurd h (by decide)⟩, "#", rfl, by decide⟩
  · have htokens : ((Lexer.base.withLineComment "#").tokenize "# a\rb").toList =
        [⟨.beginning, "", ⟨0, 0⟩, 1, 1⟩, ⟨.comment, "# a", ⟨0, 3⟩, 1, 1⟩,
          ⟨.space, "\r", ⟨3, 4⟩, 1, 4⟩, ⟨.identifier, "b", ⟨4, 5⟩, 1, 5⟩,
          ⟨.ending, "", ⟨5, 5⟩, 1, 6⟩] := by decide +kernel
    rw [htokens]
    simp

end Lexer

end TokenGrammar
