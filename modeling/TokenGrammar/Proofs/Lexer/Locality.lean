/-
  TokenGrammar.Proofs.Lexer.Locality

  The tokens of two texts with a line feed between them.  A lexer whose words hold no line
  feed counts every line feed of a text (`Lexer.standsBehind_ending`).  So the tokens of the
  second text are those that it has by itself, as many bytes and lines further on as the
  first one and the line feed take up.

  Main statement: `Lexer.lexing_is_local_to_lines`.
-/

import TokenGrammar.Proofs.Grammar.Joining
import TokenGrammar.Proofs.Grammar.LineCounts
import TokenGrammar.Proofs.Lexer.Seams

namespace TokenGrammar

namespace Lexer

variable {lexer : Lexer}

-- ============================================================================
-- Keywords
-- ============================================================================

/-- A keyword is one of the registered ones. -/
theorem exists_of_scanWords_eq_keyword {c : Char} {text taken rest : List Char}
    (h : lexer.scanWords c text = .single .keyword taken rest) :
    ∃ word ∈ lexer.keywords, word.toList = taken := by
  unfold scanWords at h
  rw [List.findSome?_cons] at h
  cases hkeyword : lexer.scanKeyword (c :: text) with
  | some found =>
      obtain ⟨word, hword, behind, -, -, rfl⟩ := of_scanWord_eq_some hkeyword
      rw [hkeyword] at h
      simp only [Option.getD_some, Scan.single, Scan.mk.injEq, List.cons.injEq,
        Lexeme.mk.injEq] at h
      exact ⟨word, hword, h.1.1.2.1⟩
  | none =>
      rw [hkeyword, List.findSome?_cons] at h
      cases hsymbol : lexer.scanSymbol (c :: text) with
      | some found =>
          obtain ⟨word, -, behind, -, -, rfl⟩ := of_scanWord_eq_some hsymbol
          rw [hsymbol] at h
          simp [Scan.single] at h
      | none =>
          rw [hsymbol, List.findSome?_singleton, scanRun] at h
          cases hword : isWord c <;> simp [hword, Scan.single] at h

theorem not_mem_of_keyword (hfeed : lexer.HoldsNoFeed) {text : List Char} {lexeme : Lexeme}
    (h : lexeme ∈ lexer.lexemes text) (hcls : lexeme.cls = .keyword) : '\n' ∉ lexeme.text := by
  fun_induction lexer.lexemes text with
  | case1 => cases h
  | case2 c text found ih =>
      rcases List.mem_append.1 h with h | h
      · have hwordlike : lexeme.cls ∈ TokenClass.wordlike := by simp [hcls, TokenClass.wordlike]
        obtain ⟨hbare, ⟨-, htext⟩ | ⟨-, hwords⟩⟩ := word_of_mem_scan h hwordlike
        · rw [htext]
          exact fun hmem => hbare.ne_of_isWhiteSpace '\n' (by decide) (List.mem_singleton.1 hmem).symm
        · obtain ⟨cls, more, rest, hscan, -⟩ := lexer.exists_of_scanWords c text
          have hfound : found = .single cls (c :: more) rest := hwords.trans hscan
          rw [hfound] at h
          obtain rfl := List.mem_singleton.1 h
          obtain rfl : cls = .keyword := hcls
          obtain ⟨word, hword, hchars⟩ := exists_of_scanWords_eq_keyword hscan
          rw [← hchars]
          exact hfeed word (List.mem_append_left _ (List.mem_append_right _ hword))
      · exact ih h

-- ============================================================================
-- Ends of texts
-- ============================================================================

/-- A token stands behind the characters in front of it. -/
theorem standsBehind_of_toList_eq (hfeed : lexer.HoldsNoFeed) {text : String}
    {earlier later : List Token} {token : Token}
    (hsplit : (lexer.tokenize text).toList = earlier ++ token :: later) :
    token.span.start = byteLength (Token.allText earlier) ∧
      token.StandsBehind (Token.allText earlier) := by
  have hsymbols : ∀ word ∈ lexer.symbols, '\n' ∉ word.toList := fun word hword =>
    hfeed word (List.mem_append_left _ (List.mem_append_left _ hword))
  have hkeywords : ∀ word ∈ earlier, word.cls = .keyword → '\n' ∉ word.text.toList := by
    intro word hword hcls
    have hmem : word ∈ (lexer.tokenize text).toList := by
      rw [hsplit]
      exact List.mem_append_left _ hword
    rw [toList_tokenize, Cursor.placeAll, List.mem_cons, List.mem_append, List.mem_singleton] at hmem
    rcases hmem with rfl | hmem | rfl
    · cases hcls
    · obtain ⟨lexeme, hlexeme, place, rfl⟩ := Cursor.exists_of_mem_place hmem
      rw [Cursor.token, String.toList_ofList]
      exact not_mem_of_keyword hfeed hlexeme hcls
    · cases hcls
  have hstands := standsBehind_tokenize hsymbols hsplit
  rwa [Token.allCounted_eq_allText hkeywords] at hstands

/-- The mark at the end of a text stands behind the text. -/
theorem standsBehind_ending (hfeed : lexer.HoldsNoFeed) (text : String) :
    (lexer.tokenize text).ending.span.start = text.utf8ByteSize ∧
      (lexer.tokenize text).ending.StandsBehind text.toList := by
  have hwhole := lexer.allText_tokenize text
  let tokens := Cursor.beginning.mark .beginning :: Cursor.beginning.place (lexer.lexemes text.toList)
  have hsplit : (lexer.tokenize text).toList = tokens ++ [(lexer.tokenize text).ending] := rfl
  have htext : Token.allText tokens = text.toList := by
    rw [← hwhole, hsplit, Token.allText, Token.allText, List.flatMap_append, List.flatMap_singleton]
    exact (List.append_nil _).symm
  have hstands := standsBehind_of_toList_eq hfeed hsplit
  rwa [htext, byteLength_toList] at hstands

/-- Behind a text a lexer is where its characters lead. -/
theorem afterAll_lexemes (hfeed : lexer.HoldsNoFeed) (text : String) :
    Cursor.beginning.afterAll (lexer.lexemes text.toList) =
      ⟨text.utf8ByteSize, lineBehind text.toList, columnBehind text.toList⟩ := by
  obtain ⟨hstart, hstands⟩ := standsBehind_ending hfeed text
  rw [← hstart, ← hstands.line_eq, ← hstands.column_eq]
  rfl

/-- Behind a line feed a lexer is where it begins, as many bytes and lines further on. -/
theorem after_lineFeed (hfeed : lexer.HoldsNoFeed) (text : String) :
    (Cursor.beginning.afterAll (lexer.lexemes text.toList)).after ⟨.line, ['\n'], true⟩ =
      Cursor.beginning.shifted (text.utf8ByteSize + 1) (lineBehind text.toList) := by
  rw [afterAll_lexemes hfeed]
  unfold Cursor.after Cursor.shifted
  rw [if_pos rfl, if_pos rfl]
  congr 1
  · exact (Nat.zero_add _).symm
  · exact Nat.add_comm _ _

/-- The token of the line feed behind a text. -/
theorem token_lineFeed (hfeed : lexer.HoldsNoFeed) (text : String) :
    (Cursor.beginning.afterAll (lexer.lexemes text.toList)).token ⟨.line, ['\n'], true⟩ =
      ⟨.line, "\n", ⟨text.utf8ByteSize, text.utf8ByteSize + 1⟩, lineBehind text.toList,
        columnBehind text.toList⟩ := by
  rw [afterAll_lexemes hfeed]
  rfl

/-- Lexing is local to lines.  If no registered word, nor what begins a comment, holds a
    line feed, and a text ends with neither a backslash nor a carriage return, then the
    tokens of the text, a line feed and another text are those of the first text without
    the mark at its end, a line end, and those of the second one without the mark at its
    beginning, as many bytes and lines further on as the first text and the line feed take
    up. -/
theorem lexing_is_local_to_lines (lexer : Lexer)
    (hfeed : ∀ word ∈ lexer.symbols ++ lexer.keywords ++ lexer.lineComment.toList,
      '\n' ∉ word.toList)
    (first second : String) (hend : ∀ c ∈ first.toList.getLast?, c ≠ '\\' ∧ c ≠ '\r') :
    let bytes := first.utf8ByteSize
    let feeds := first.toList.count '\n'
    (lexer.tokenize (first ++ "\n" ++ second)).toList =
      (lexer.tokenize first).toList.dropLast ++
        ⟨.line, "\n", ⟨bytes, bytes + 1⟩, 1 + feeds, columnBehind first.toList⟩ ::
          (lexer.tokenize second).toList.tail.map (Token.shifted (bytes + 1) (1 + feeds)) := by
  intro bytes feeds
  have hjoined : (first ++ "\n" ++ second).toList = first.toList ++ '\n' :: second.toList :=
    Grammar.toList_joinedText first second
  have hfirst : (lexer.tokenize first).toList.dropLast =
      Cursor.beginning.mark .beginning :: Cursor.beginning.place (lexer.lexemes first.toList) := by
    rw [toList_tokenize, Cursor.placeAll, ← List.cons_append, List.dropLast_concat]
  rw [hfirst, toList_tokenize, hjoined, lexemes_joined hfeed hend, Cursor.placeAll_append,
    Cursor.placeAll_cons, token_lineFeed hfeed, after_lineFeed hfeed, Cursor.placeAll_shifted]
  rfl

/-- A string that is not closed on its line does not reach the next one. -/
theorem open_string_stays_on_its_line :
    ∃ lexer : Lexer, (∀ word ∈ lexer.symbols ++ lexer.keywords ++ lexer.lineComment.toList,
        '\n' ∉ word.toList) ∧
      (∀ c ∈ "if 'a # b".toList.getLast?, c ≠ '\\' ∧ c ≠ '\r') ∧
      (lexer.tokenize "if 'a # b").toList.map Token.text = ["", "if", " ", "'", "a # b", ""] ∧
      (lexer.tokenize "== c").toList.map Token.text = ["", "==", " ", "c", ""] ∧
      (lexer.tokenize ("if 'a # b" ++ "\n" ++ "== c")).toList =
        (lexer.tokenize "if 'a # b").toList.dropLast ++ ⟨.line, "\n", ⟨9, 10⟩, 1, 10⟩ ::
          (lexer.tokenize "== c").toList.tail.map (Token.shifted 10 1) := by
  let lexer : Lexer := Lexer.base.withSymbols ["=", "=="] |>.withKeywords ["if"]
    |>.withLineComment "#"
  have hfeed : ∀ word ∈ lexer.symbols ++ lexer.keywords ++ lexer.lineComment.toList,
      '\n' ∉ word.toList := by decide +kernel
  have hend : ∀ c ∈ "if 'a # b".toList.getLast?, c ≠ '\\' ∧ c ≠ '\r' := by
    have hlast : "if 'a # b".toList.getLast? = some 'b' := by decide
    rw [hlast]
    rintro _ ⟨⟩
    decide
  have hbytes : "if 'a # b".utf8ByteSize = 9 := by decide +kernel
  have hfeeds : "if 'a # b".toList.count '\n' = 0 := by decide
  have hcolumn : columnBehind "if 'a # b".toList = 10 := by decide
  have hlocal := lexing_is_local_to_lines lexer hfeed "if 'a # b" "== c" hend
  simp only [hbytes, hfeeds, hcolumn] at hlocal
  exact ⟨lexer, hfeed, hend, by decide +kernel, by decide +kernel, hlocal⟩

end Lexer

end TokenGrammar
