/-
  TokenGrammar.Proofs.Grammar.LineCounts

  The lines and columns that tokens say they stand in.  A lexer begins a new line behind a
  line end and behind a continued line, and counts columns from there.  Comments, strings,
  white space and words hold no line feed, nor does any symbol of a grammar; but a keyword
  does, if the literal that it is was written with that escape, and it begins no new line
  (`Lexer.countsLines_of_mem_lexemes`).  So lines are counted as though the line feeds in
  keywords were other characters.

  Main statement: `Grammar.lines_are_counted_outside_keywords`.
-/

import Mathlib.Data.List.TakeWhile
import TokenGrammar.Proofs.Grammar.Literals

namespace TokenGrammar

-- ============================================================================
-- Lines and columns in a text
-- ============================================================================

/-- The line behind some text, where lines count from one. -/
def lineBehind (before : List Char) : Nat := 1 + before.count '\n'

/-- The column behind some text, where columns count from one. -/
def columnBehind (before : List Char) : Nat :=
  1 + (before.reverse.takeWhile (· != '\n')).length

section Behind

variable {line : List Char} (before : List Char)

theorem takeWhile_reverse_append (h : '\n' ∉ line) :
    (before ++ line).reverse.takeWhile (· != '\n') =
      line.reverse ++ before.reverse.takeWhile (· != '\n') := by
  rw [List.reverse_append]
  refine List.takeWhile_append_of_pos fun c hc => bne_iff_ne.2 ?_
  rintro rfl
  exact h (List.mem_reverse.1 hc)

theorem lineBehind_append (h : '\n' ∉ line) : lineBehind (before ++ line) = lineBehind before := by
  rw [lineBehind, List.count_append, List.count_eq_zero.2 h]
  rfl

theorem columnBehind_append (h : '\n' ∉ line) :
    columnBehind (before ++ line) = columnBehind before + line.length := by
  rw [columnBehind, takeWhile_reverse_append before h, List.length_append, List.length_reverse,
    columnBehind]
  omega

theorem lineBehind_append_feed (h : '\n' ∉ line) :
    lineBehind (before ++ (line ++ ['\n'])) = lineBehind before + 1 := by
  rw [← List.append_assoc, lineBehind, List.count_append, ← Nat.add_assoc]
  exact congrArg (· + 1) (lineBehind_append before h)

theorem columnBehind_append_feed (line : List Char) :
    columnBehind (before ++ (line ++ ['\n'])) = 1 := by
  rw [← List.append_assoc, columnBehind, List.reverse_concat,
    List.takeWhile_cons_of_neg (by decide)]
  rfl

end Behind

-- ============================================================================
-- The line feeds that are counted
-- ============================================================================

/-- The characters that lines are counted by: those of a keyword count as though none of
    them were a line feed. -/
def countedText (cls : TokenClass) (text : List Char) : List Char :=
  if cls = .keyword then text.map fun c => if c = '\n' then ' ' else c else text

/-- The characters that a token is counted by. -/
def Token.counted (token : Token) : List Char := countedText token.cls token.text.toList

/-- The characters that a lexeme is counted by. -/
def Lexeme.counted (lexeme : Lexeme) : List Char := countedText lexeme.cls lexeme.text

theorem countedText_of_ne {cls : TokenClass} (h : cls ≠ .keyword) (text : List Char) :
    countedText cls text = text := if_neg h

theorem length_countedText (cls : TokenClass) (text : List Char) :
    (countedText cls text).length = text.length := by
  unfold countedText
  split
  · exact List.length_map _
  · rfl

theorem not_mem_countedText_keyword (text : List Char) : '\n' ∉ countedText .keyword text := by
  rw [countedText, if_pos rfl]
  intro hmem
  obtain ⟨c, -, hc⟩ := List.mem_map.1 hmem
  split at hc
  · cases hc
  · next hne => exact hne hc

theorem countedText_eq_self {cls : TokenClass} {text : List Char}
    (h : cls = .keyword → '\n' ∉ text) : countedText cls text = text := by
  unfold countedText
  split
  · next hcls =>
    have hsame : ∀ c ∈ text, (if c = '\n' then ' ' else c) = c := by
      intro c hc
      refine if_neg ?_
      rintro rfl
      exact h hcls hc
    rw [List.map_congr_left hsame, List.map_id']
  · rfl

theorem count_countedText_le (cls : TokenClass) (text : List Char) :
    (countedText cls text).count '\n' ≤ text.count '\n' := by
  by_cases hcls : cls = .keyword
  · rw [hcls, List.count_eq_zero.2 (not_mem_countedText_keyword text)]
    exact Nat.zero_le _
  · rw [countedText_of_ne hcls]

/-- The characters of some tokens. -/
def Token.allText (tokens : List Token) : List Char := tokens.flatMap (·.text.toList)

/-- The characters that some tokens are counted by. -/
def Token.allCounted (tokens : List Token) : List Char := tokens.flatMap Token.counted

namespace Token

theorem count_allCounted_le (tokens : List Token) :
    (allCounted tokens).count '\n' ≤ (allText tokens).count '\n' := by
  induction tokens with
  | nil => exact Nat.le_refl _
  | cons token tokens ih =>
      have htoken := count_countedText_le token.cls token.text.toList
      simp only [allCounted, allText, List.flatMap_cons, List.count_append] at ih ⊢
      exact Nat.add_le_add htoken ih

theorem allCounted_eq_allText {tokens : List Token}
    (h : ∀ word ∈ tokens, word.cls = .keyword → '\n' ∉ word.text.toList) :
    allCounted tokens = allText tokens := by
  induction tokens with
  | nil => rfl
  | cons token tokens ih =>
      obtain ⟨htoken, htokens⟩ := List.forall_mem_cons.1 h
      rw [allCounted, allText, List.flatMap_cons, List.flatMap_cons]
      exact congrArg₂ (· ++ ·) (countedText_eq_self htoken) (ih htokens)

/-- No line feed is left out only if no keyword holds one. -/
theorem not_mem_of_count_allCounted {tokens : List Token}
    (h : (allCounted tokens).count '\n' = (allText tokens).count '\n') :
    ∀ word ∈ tokens, word.cls = .keyword → '\n' ∉ word.text.toList := by
  induction tokens with
  | nil => exact fun _ hmem => nomatch hmem
  | cons token tokens ih =>
      have hrest := count_allCounted_le tokens
      have htoken := count_countedText_le token.cls token.text.toList
      simp only [allCounted, allText, List.flatMap_cons, List.count_append, counted] at h hrest
      refine List.forall_mem_cons.2 ⟨fun hcls => ?_, ih (by rw [allCounted, allText]; omega)⟩
      rw [hcls, List.count_eq_zero.2 (not_mem_countedText_keyword _)] at h
      exact List.count_eq_zero.1 (by omega)

end Token

-- ============================================================================
-- Lexemes
-- ============================================================================

/-- A lexeme begins a new line exactly if it ends with a line feed that is counted, and it
    holds no other. -/
def Lexeme.CountsLines (lexeme : Lexeme) : Prop :=
  ∃ line, '\n' ∉ line ∧ lexeme.counted = if lexeme.endsLine then line ++ ['\n'] else line

namespace Lexeme

theorem countsLines_of_not_mem {cls : TokenClass} {text : List Char}
    (h : cls ≠ .keyword → '\n' ∉ text) : CountsLines ⟨cls, text, false⟩ := by
  refine ⟨countedText cls text, ?_, rfl⟩
  by_cases hcls : cls = .keyword
  · rw [hcls]
    exact not_mem_countedText_keyword text
  · rw [countedText_of_ne hcls]
    exact h hcls

theorem countsLines_of_eq_concat {cls : TokenClass} (hcls : cls ≠ .keyword) {line : List Char}
    (h : '\n' ∉ line) : CountsLines ⟨cls, line ++ ['\n'], true⟩ :=
  ⟨line, h, countedText_of_ne hcls _⟩

end Lexeme

theorem exists_of_lineEnd? {text taken rest : List Char} (h : lineEnd? text = some (taken, rest)) :
    ∃ line, taken = line ++ ['\n'] ∧ '\n' ∉ line := by
  unfold lineEnd? at h
  split at h
  · obtain ⟨rfl, -⟩ := Prod.mk.inj (Option.some.inj h)
    exact ⟨[], rfl, List.not_mem_nil⟩
  · obtain ⟨rfl, -⟩ := Prod.mk.inj (Option.some.inj h)
    exact ⟨['\r'], rfl, by decide⟩
  · cases h

theorem countsLines_of_scanRun {cls : TokenClass} {p : Char → Bool} {c : Char} {text : List Char}
    {scan : Scan} (hp : p '\n' = false) (h : scanRun cls p (c :: text) = some scan) :
    ∀ lexeme ∈ scan.lexemes, lexeme.CountsLines := by
  obtain ⟨-, rfl⟩ := of_scanRun_eq_some h
  intro lexeme hlexeme
  rw [List.mem_singleton.1 hlexeme]
  refine Lexeme.countsLines_of_not_mem fun _ hmem => ?_
  rw [List.mem_takeWhile_imp hmem] at hp
  cases hp

theorem countsLines_scanQuoted {quote : Char} (hquote : quote ≠ '\n') (text : List Char) :
    ∀ lexeme ∈ (scanQuoted quote text).lexemes, lexeme.CountsLines := by
  intro lexeme hlexeme
  rcases mem_scanQuoted hlexeme with rfl | hheld
  · exact Lexeme.countsLines_of_not_mem fun _ hmem => hquote (List.mem_singleton.1 hmem).symm
  · unfold payloadLexemes at hheld
    split at hheld
    · cases hheld
    · rw [List.mem_singleton.1 hheld]
      refine Lexeme.countsLines_of_not_mem fun _ hmem => ?_
      exact absurd (isLineBreak_of_mem_payload hmem) (by decide)

namespace Lexer

variable {lexer : Lexer}

/-- If no symbol holds a line feed, what is taken off a text begins a new line exactly
    where a line feed is counted. -/
theorem countsLines_of_mem_scan (hsymbols : ∀ word ∈ lexer.symbols, '\n' ∉ word.toList)
    (c : Char) (text : List Char) :
    ∀ lexeme ∈ (lexer.scan c text).lexemes, lexeme.CountsLines := by
  by_cases hfeed : c = '\n'
  · -- A line feed is taken by the first rule, even if it is a quote.
    subst hfeed
    intro lexeme hlexeme
    rw [List.mem_singleton.1 hlexeme]
    exact Lexeme.countsLines_of_eq_concat (by decide) List.not_mem_nil
  unfold scan
  cases hfound : lexer.rules.findSome? (· (c :: text)) with
  | none =>
      intro lexeme hlexeme
      rw [List.mem_singleton.1 hlexeme]
      exact Lexeme.countsLines_of_not_mem fun _ hmem => hfeed (List.mem_singleton.1 hmem).symm
  | some found =>
      rw [Option.getD_some]
      obtain ⟨rule, hrule, h⟩ := List.exists_of_findSome?_eq_some hfound
      simp only [rules, List.mem_cons, List.not_mem_nil, or_false] at hrule
      rcases hrule with rfl | rfl | rfl | rfl | rfl | rfl | rfl | rfl
      · obtain ⟨⟨taken, rest⟩, hend, rfl⟩ := Option.map_eq_some_iff.1 h
        obtain ⟨line, rfl, hline⟩ := exists_of_lineEnd? hend
        intro lexeme hlexeme
        rw [List.mem_singleton.1 hlexeme]
        exact Lexeme.countsLines_of_eq_concat (by decide) hline
      · unfold scanContinuation at h
        split at h
        · obtain ⟨⟨taken, rest⟩, hend, rfl⟩ := Option.map_eq_some_iff.1 h
          obtain ⟨line, rfl, hline⟩ := exists_of_lineEnd? hend
          intro lexeme hlexeme
          rw [List.mem_singleton.1 hlexeme]
          exact Lexeme.countsLines_of_eq_concat (by decide)
            (List.not_mem_cons_of_ne_of_not_mem (by decide) hline)
        · cases h
      · exact countsLines_of_scanRun (by decide) h
      · unfold scanComment at h
        split at h
        · split at h
          · exact countsLines_of_scanRun (by decide) h
          · cases h
        · cases h
      · simp only [scanString, Option.ite_none_right_eq_some, Option.some.injEq,
          List.contains_iff_mem] at h
        rw [← h.2]
        exact countsLines_scanQuoted hfeed text
      · obtain ⟨word, -, rest, -, -, rfl⟩ := of_scanWord_eq_some h
        intro lexeme hlexeme
        rw [List.mem_singleton.1 hlexeme]
        exact Lexeme.countsLines_of_not_mem fun hcls => absurd rfl hcls
      · obtain ⟨word, hword, rest, -, -, rfl⟩ := of_scanWord_eq_some h
        intro lexeme hlexeme
        rw [List.mem_singleton.1 hlexeme]
        exact Lexeme.countsLines_of_not_mem fun _ => hsymbols word hword
      · exact countsLines_of_scanRun (by decide) h

theorem countsLines_of_mem_lexemes (hsymbols : ∀ word ∈ lexer.symbols, '\n' ∉ word.toList)
    {text : List Char} {lexeme : Lexeme} (h : lexeme ∈ lexer.lexemes text) :
    lexeme.CountsLines := by
  fun_induction lexer.lexemes text with
  | case1 => cases h
  | case2 c text found ih =>
      rcases List.mem_append.1 h with h | h
      · exact countsLines_of_mem_scan hsymbols c text lexeme h
      · exact ih h

end Lexer

-- ============================================================================
-- Tokens
-- ============================================================================

/-- A token says that it stands where a text ends, as far as its line and its column go. -/
structure Token.StandsBehind (token : Token) (before : List Char) : Prop where
  line_eq : token.line = lineBehind before
  column_eq : token.column = columnBehind before

namespace Cursor

/-- A place behind some text, where lines are counted by other characters. -/
structure IsBehind (cursor : Cursor) (before counted : List Char) : Prop where
  offset_eq : cursor.offset = byteLength before
  line_eq : cursor.line = lineBehind counted
  column_eq : cursor.column = columnBehind counted

variable {cursor : Cursor} {before counted : List Char}

theorem IsBehind.after (h : cursor.IsBehind before counted) {lexeme : Lexeme}
    (hlexeme : lexeme.CountsLines) :
    (cursor.after lexeme).IsBehind (before ++ lexeme.text) (counted ++ lexeme.counted) := by
  obtain ⟨line, hline, hcounted⟩ := hlexeme
  have hoffset : (cursor.after lexeme).offset = byteLength (before ++ lexeme.text) := by
    rw [byteLength_append, ← h.offset_eq]
    rfl
  have hlength : lexeme.counted.length = lexeme.text.length := length_countedText _ _
  rw [hcounted] at hlength ⊢
  unfold Cursor.after at hoffset ⊢
  generalize lexeme.endsLine = endsLine at hoffset hlength ⊢
  cases endsLine with
  | true =>
      refine ⟨hoffset, ?_, (columnBehind_append_feed counted line).symm⟩
      exact (congrArg (· + 1) h.line_eq).trans (lineBehind_append_feed counted hline).symm
  | false =>
      refine ⟨hoffset, h.line_eq.trans (lineBehind_append counted hline).symm, ?_⟩
      show cursor.column + lexeme.text.length = columnBehind (counted ++ line)
      rw [columnBehind_append counted hline, h.column_eq, ← hlength]
      rfl

/-- A token among those of some lexemes stands behind the ones in front of it. -/
theorem IsBehind.of_placeAll {lexemes : List Lexeme} (h : cursor.IsBehind before counted)
    (hlexemes : ∀ lexeme ∈ lexemes, lexeme.CountsLines) {earlier later : List Token}
    {token : Token} (hsplit : cursor.placeAll lexemes = earlier ++ token :: later) :
    token.span.start = byteLength (before ++ Token.allText earlier) ∧
      token.StandsBehind (counted ++ Token.allCounted earlier) := by
  induction earlier generalizing cursor lexemes before counted with
  | nil =>
      obtain ⟨hstart, hstands⟩ : token.span.start = cursor.offset ∧
          token.line = cursor.line ∧ token.column = cursor.column := by
        cases lexemes with
        | nil =>
            obtain ⟨rfl, -⟩ := List.cons.inj hsplit
            exact ⟨rfl, rfl, rfl⟩
        | cons lexeme rest =>
            obtain ⟨rfl, -⟩ := List.cons.inj hsplit
            exact ⟨rfl, rfl, rfl⟩
      simp only [Token.allText, Token.allCounted, List.flatMap_nil, List.append_nil]
      exact ⟨hstart.trans h.offset_eq,
        hstands.1.trans h.line_eq, hstands.2.trans h.column_eq⟩
  | cons first earlier ih =>
      cases lexemes with
      | nil =>
          have hnil := (List.cons.inj hsplit).2
          cases earlier <;> cases hnil
      | cons lexeme rest =>
          obtain ⟨rfl, hrest⟩ := List.cons.inj hsplit
          obtain ⟨hlexeme, hlater⟩ := List.forall_mem_cons.1 hlexemes
          have hfound := ih (h.after hlexeme) hlater hrest
          rw [List.append_assoc, List.append_assoc] at hfound
          have htext : (cursor.token lexeme).text.toList = lexeme.text := String.toList_ofList
          have hcounted : (cursor.token lexeme).counted = lexeme.counted := by
            rw [Token.counted, htext]
            rfl
          rw [Token.allText, Token.allCounted, List.flatMap_cons, List.flatMap_cons, htext,
            hcounted]
          exact hfound

theorem allText_placeAll (cursor : Cursor) (lexemes : List Lexeme) :
    Token.allText (cursor.placeAll lexemes) = lexemes.flatMap Lexeme.text := by
  induction lexemes generalizing cursor with
  | nil => rfl
  | cons lexeme rest ih =>
      rw [placeAll_cons, Token.allText, List.flatMap_cons, List.flatMap_cons]
      exact congrArg₂ (· ++ ·) String.toList_ofList (ih _)

end Cursor

namespace Lexer

variable {lexer : Lexer}

theorem allText_tokenize (lexer : Lexer) (text : String) :
    Token.allText (lexer.tokenize text).toList = text.toList := by
  rw [toList_tokenize, Token.allText, List.flatMap_cons]
  exact (Cursor.allText_placeAll _ _).trans (lexer.flatMap_lexemes text.toList)

/-- The tokens of a text stand behind those in front of them. -/
theorem standsBehind_tokenize (hsymbols : ∀ word ∈ lexer.symbols, '\n' ∉ word.toList)
    {text : String} {earlier later : List Token} {token : Token}
    (hsplit : (lexer.tokenize text).toList = earlier ++ token :: later) :
    token.span.start = byteLength (Token.allText earlier) ∧
      token.StandsBehind (Token.allCounted earlier) := by
  rw [toList_tokenize] at hsplit
  have hbeginning : Cursor.beginning.IsBehind [] [] := ⟨rfl, rfl, rfl⟩
  cases earlier with
  | nil =>
      obtain ⟨rfl, -⟩ := List.cons.inj hsplit
      exact ⟨rfl, rfl, rfl⟩
  | cons first earlier =>
      obtain ⟨rfl, hrest⟩ := List.cons.inj hsplit
      exact hbeginning.of_placeAll
        (fun _ => countsLines_of_mem_lexemes hsymbols) hrest

end Lexer

-- ============================================================================
-- Grammars
-- ============================================================================

namespace Grammar

theorem not_mem_of_mem_symbols_lexer {rules : RuleTable} {word : String}
    (h : word ∈ (ofRules rules).lexer.symbols) : '\n' ∉ word.toList := by
  intro hmem
  have hpunctuation := List.all_eq_true.1 (mem_symbols_lexer.1 h).1.2 _ hmem
  exact absurd hpunctuation (by decide +kernel)

/-- Where the tokens of a language stand.  The tokens in front of a token make up the text
    up to where it begins.  Its line counts the line feeds there, and its column the
    characters behind the last of them, except that line feeds in keywords count as other
    characters.  So line and column are those of the place in the text exactly if no keyword
    in front of it holds a line feed. -/
theorem lines_are_counted_outside_keywords (source : String) (grammar : Grammar)
    (h : compile source = .ok grammar) (opening text : String) (earlier later : List Token)
    (token : Token)
    (hsplit : ((grammar.lexer.withLineComment opening).tokenize text).toList =
      earlier ++ token :: later) :
    Token.allText earlier ++ Token.allText (token :: later) = text.toList ∧
      token.span.start = byteLength (Token.allText earlier) ∧
      token.StandsBehind (Token.allCounted earlier) ∧
      (token.StandsBehind (Token.allText earlier) ↔
        ∀ word ∈ earlier, word.cls = .keyword → '\n' ∉ word.text.toList) := by
  obtain ⟨rules, -, rfl⟩ := compile_eq_ok.1 h
  have hsymbols : ∀ word ∈ ((ofRules rules).lexer.withLineComment opening).symbols,
      '\n' ∉ word.toList := fun _ => not_mem_of_mem_symbols_lexer
  obtain ⟨hstart, hstands⟩ := Lexer.standsBehind_tokenize hsymbols hsplit
  refine ⟨?_, hstart, hstands, fun hplace => ?_, fun hwords => ?_⟩
  · rw [← Lexer.allText_tokenize _ text, hsplit]
    exact List.flatMap_append.symm
  · have hline : lineBehind (Token.allCounted earlier) = lineBehind (Token.allText earlier) :=
      hstands.line_eq.symm.trans hplace.line_eq
    exact Token.not_mem_of_count_allCounted (Nat.add_left_cancel hline)
  · rw [← Token.allCounted_eq_allText hwords]
    exact hstands

/-- A keyword that holds a line feed, and a word. -/
def brokenKeyword : RuleTable :=
  ⟨[⟨"ROOT", [.terminal .plain ⟨8, 14⟩ (.literal "a\nb"),
    .terminal .plain ⟨15, 17⟩ (.ofCategory .identifier)], ⟨0, 17⟩⟩], by decide⟩

theorem compile_brokenKeyword :
    compile "ROOT := 'a\\nb' ID" = .ok (ofRules brokenKeyword) := by decide +kernel

/-- A word on the line behind that keyword.  It says that it is on the second line, where
    two line feeds stand in front of it. -/
theorem second_line_is_behind_two_line_feeds :
    ∃ grammar earlier later, compile "ROOT := 'a\\nb' ID" = .ok grammar ∧
      ((grammar.lexer.withLineComment "#").tokenize "a\nb\n c").toList =
        earlier ++ ⟨.identifier, "c", ⟨5, 6⟩, 2, 2⟩ :: later ∧
      Token.allText earlier = "a\nb\n ".toList ∧
      Token.StandsBehind ⟨.identifier, "c", ⟨5, 6⟩, 2, 2⟩ (Token.allCounted earlier) ∧
      ¬ Token.StandsBehind ⟨.identifier, "c", ⟨5, 6⟩, 2, 2⟩ (Token.allText earlier) := by
  let earlier : List Token := [⟨.beginning, "", ⟨0, 0⟩, 1, 1⟩, ⟨.keyword, "a\nb", ⟨0, 3⟩, 1, 1⟩,
    ⟨.line, "\n", ⟨3, 4⟩, 1, 4⟩, ⟨.space, " ", ⟨4, 5⟩, 2, 1⟩]
  have hsplit : (((ofRules brokenKeyword).lexer.withLineComment "#").tokenize "a\nb\n c").toList =
      earlier ++ ⟨.identifier, "c", ⟨5, 6⟩, 2, 2⟩ :: [⟨.ending, "", ⟨6, 6⟩, 2, 3⟩] := by decide +kernel
  obtain ⟨-, -, hcounted, hplace⟩ :=
    lines_are_counted_outside_keywords _ _ compile_brokenKeyword "#" _ _ _ _ hsplit
  exact ⟨_, earlier, _, compile_brokenKeyword, hsplit, rfl, hcounted,
    fun h => absurd (hplace.1 h) (by decide)⟩

/-- A word behind that keyword says that it is on the first line, where a line feed stands
    in front of it. -/
theorem first_line_is_behind_line_feed :
    ∃ grammar earlier later, compile "ROOT := 'a\\nb' ID" = .ok grammar ∧
      (grammar.lexer.tokenize "a\nb 1").toList =
        earlier ++ ⟨.identifier, "1", ⟨4, 5⟩, 1, 5⟩ :: later ∧
      Token.allText earlier = "a\nb ".toList ∧
      ¬ Token.StandsBehind ⟨.identifier, "1", ⟨4, 5⟩, 1, 5⟩ (Token.allText earlier) := by
  refine ⟨_, [⟨.beginning, "", ⟨0, 0⟩, 1, 1⟩, ⟨.keyword, "a\nb", ⟨0, 3⟩, 1, 1⟩,
    ⟨.space, " ", ⟨3, 4⟩, 1, 4⟩], [⟨.ending, "", ⟨5, 5⟩, 1, 6⟩], compile_brokenKeyword, ?_⟩
  exact ⟨by decide +kernel, rfl, fun h => absurd h.line_eq (by decide)⟩

end Grammar

end TokenGrammar
