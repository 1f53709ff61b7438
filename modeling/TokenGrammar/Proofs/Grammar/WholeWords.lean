/-
  TokenGrammar.Proofs.Grammar.WholeWords

  Whether a word can be split.  The lexemes of one pass keep apart: there is more than one
  of them only in a string, where each is next to a quote.  Passes do not stop inside a word
  either, so that all lexemes of a text keep apart (`Lexer.isChain_lexemes`), and with them
  what stands in front of a token and behind it (`Lexer.endsOnBoundary_of_tokenize_eq`).

  Main statement: `Grammar.words_are_never_split`.
-/

import Mathlib.Data.List.Chain
import TokenGrammar.Proofs.Grammar.LongestWords

namespace TokenGrammar

-- ============================================================================
-- Lexemes side by side
-- ============================================================================

/-- No word runs on from a lexeme into the next one. -/
def Lexeme.KeepsApart (lexeme next : Lexeme) : Prop :=
  endsOnBoundary lexeme.text next.text = true

namespace Lexeme

variable {quote : Char} (hquote : isWord quote = false)
include hquote

/-- A quote is part of no word. -/
theorem keepsApart_mark (next : Lexeme) : KeepsApart ⟨.symbol, [quote], false⟩ next := by
  apply endsOnBoundary_of_getLast?
  rintro final ⟨⟩
  exact hquote

theorem mark_keepsApart (lexeme : Lexeme) : KeepsApart lexeme ⟨.symbol, [quote], false⟩ := by
  apply endsOnBoundary_of_head?
  rintro next ⟨⟩
  exact hquote

end Lexeme

/-- What stands in front of a place between lexemes keeps apart from what stands behind
    it, if neighbours do. -/
theorem endsOnBoundary_of_isChain {passed ahead : List Lexeme}
    (hchain : (passed ++ ahead).IsChain Lexeme.KeepsApart)
    (hsolid : ∀ lexeme ∈ passed ++ ahead, lexeme.text ≠ []) :
    endsOnBoundary (passed.flatMap Lexeme.text) (ahead.flatMap Lexeme.text) = true := by
  obtain rfl | ⟨earlier, final, rfl⟩ := passed.eq_nil_or_concat'
  · exact endsOnBoundary_of_getLast? (fun _ hfinal => by cases hfinal) _
  rcases ahead with _ | ⟨next, later⟩
  · exact endsOnBoundary_of_head? (fun _ hnext => by cases hnext) _
  have hfinal : final.text ≠ [] := hsolid final (by simp)
  have hnext : next.text ≠ [] := hsolid next (by simp)
  have hapart : final.KeepsApart next :=
    (List.isChain_append.1 hchain).2.2 final (by simp) next (by simp)
  rw [List.flatMap_append, List.flatMap_singleton, endsOnBoundary_append_left hfinal,
    List.flatMap_cons, endsOnBoundary_append_right hnext]
  exact hapart

/-- Only a string is more than one lexeme, and there each is next to a quote. -/
theorem isChain_scanQuoted {quote : Char} (hquote : isWord quote = false) (text : List Char) :
    (scanQuoted quote text).lexemes.IsChain Lexeme.KeepsApart := by
  let mark : Lexeme := ⟨.symbol, [quote], false⟩
  have hopens : ∀ next, mark.KeepsApart next := Lexeme.keepsApart_mark hquote
  have hcloses : ∀ lexeme, Lexeme.KeepsApart lexeme mark := Lexeme.mark_keepsApart hquote
  have hopen : ∀ held, (mark :: payloadLexemes held).IsChain Lexeme.KeepsApart := by
    intro held
    unfold payloadLexemes
    split <;> simp [hopens]
  have hclosed : ∀ held, (mark :: (payloadLexemes held ++ [mark])).IsChain Lexeme.KeepsApart := by
    intro held
    unfold payloadLexemes
    split <;> simp [hopens, hcloses]
  unfold scanQuoted
  dsimp only
  split
  · split
    · exact hclosed _
    · exact hopen _
  · exact hopen _

namespace Lexer

variable {lexer : Lexer}

theorem isChain_scan (hkeeps : lexer.KeepsWords) (c : Char) (text : List Char) :
    (lexer.scan c text).lexemes.IsChain Lexeme.KeepsApart := by
  by_cases hbare : IsBare c text
  · rw [lexer.scan_of_isBare hbare]
    cases hcomment : lexer.scanComment (c :: text) with
    | some found =>
        obtain ⟨taken, rest, rfl⟩ := of_scanComment_eq_some hcomment
        exact List.isChain_singleton _
    | none =>
        rw [Option.getD_none]
        split
        · next hquote => exact isChain_scanQuoted (hkeeps.quotes c hquote) text
        · obtain ⟨cls, more, rest, hscan, -⟩ := lexer.exists_of_scanWords c text
          rw [hscan]
          exact List.isChain_singleton _
  · obtain ⟨only, rest, hscan, -⟩ := lexer.scan_of_not_isBare hbare
    rw [hscan]
    exact List.isChain_singleton _

/-- No word runs on from one lexeme of a text into the next. -/
theorem isChain_lexemes (hkeeps : lexer.KeepsWords) (text : List Char) :
    (lexer.lexemes text).IsChain Lexeme.KeepsApart := by
  fun_induction lexer.lexemes text with
  | case1 => exact List.isChain_nil
  | case2 c text found ih =>
      refine List.isChain_append.2 ⟨isChain_scan hkeeps c text, ih, fun final hfinal next hnext => ?_⟩
      have hsolid : final.text ≠ [] :=
        (lexer.takes_scan c text).ne_nil final (List.mem_of_getLast? hfinal)
      have hsolid' : next.text ≠ [] := ne_nil_of_mem_lexemes (List.mem_of_head? hnext)
      -- The pass ended where a word does.
      have hends := endsWords_scan hkeeps c text
      obtain ⟨earlier, hearlier⟩ := List.getLast?_eq_some_iff.1 hfinal
      obtain ⟨later, hlater⟩ := List.head?_eq_some_iff.1 hnext
      have hrest : found.rest = next.text ++ later.flatMap Lexeme.text := by
        rw [← lexer.flatMap_lexemes found.rest, hlater, List.flatMap_cons]
      have hbehind : endsOnBoundary (found.lexemes.flatMap Lexeme.text) found.rest = true := hends
      rw [hearlier, List.flatMap_append, List.flatMap_singleton, hrest,
        endsOnBoundary_append_left hsolid, endsOnBoundary_append_right hsolid'] at hbehind
      exact hbehind

end Lexer

-- ============================================================================
-- Tokens side by side
-- ============================================================================

/-- A token says that it stands behind the ones in front of it. -/
theorem Cursor.span_of_placeAll_eq {cursor : Cursor} {lexemes : List Lexeme}
    {earlier later : List Token} {token : Token}
    (hsplit : cursor.placeAll lexemes = earlier ++ token :: later) :
    token.span.start = cursor.offset + byteLength (Token.allText earlier) ∧
      token.span.stop = token.span.start + byteLength token.text.toList := by
  obtain ⟨passed, ahead, rfl, rfl, hahead⟩ :=
    exists_append_of_placeAll_eq (List.cons_ne_nil _ _) hsplit
  rw [allText_place, ← offset_afterAll]
  rcases ahead with _ | ⟨lexeme, ahead⟩
  · obtain ⟨rfl, -⟩ := List.cons.inj hahead
    exact ⟨rfl, rfl⟩
  · obtain ⟨rfl, -⟩ := List.cons.inj hahead
    refine ⟨rfl, ?_⟩
    show _ + byteLength lexeme.text = _ + byteLength (String.ofList lexeme.text).toList
    rw [String.toList_ofList]
    rfl

namespace Lexer

variable {lexer : Lexer} {text : String} {earlier later : List Token}

theorem span_of_tokenize_eq {token : Token}
    (hsplit : (lexer.tokenize text).toList = earlier ++ token :: later) :
    token.span.start = byteLength (Token.allText earlier) ∧
      token.span.stop = byteLength (Token.allText (earlier ++ [token])) := by
  have hconcat : Token.allText (earlier ++ [token]) =
      Token.allText earlier ++ token.text.toList := by
    rw [Token.allText, List.flatMap_append, List.flatMap_singleton]
    rfl
  rw [hconcat, byteLength_append]
  rw [toList_tokenize] at hsplit
  rcases earlier with _ | ⟨first, earlier⟩
  · obtain ⟨rfl, -⟩ := List.cons.inj hsplit
    exact ⟨rfl, rfl⟩
  · obtain ⟨rfl, hrest⟩ := List.cons.inj hsplit
    obtain ⟨hstart, hstop⟩ := Cursor.span_of_placeAll_eq hrest
    have hbytes : token.span.start = byteLength
        (Token.allText (Cursor.beginning.mark .beginning :: earlier)) :=
      hstart.trans (Nat.zero_add _)
    exact ⟨hbytes, by rw [hstop, hbytes]⟩

/-- No word runs on from the tokens in front of a place into those behind it. -/
theorem endsOnBoundary_of_tokenize_eq (hkeeps : lexer.KeepsWords)
    (hsplit : (lexer.tokenize text).toList = earlier ++ later) :
    endsOnBoundary (Token.allText earlier) (Token.allText later) = true := by
  rw [toList_tokenize] at hsplit
  rcases earlier with _ | ⟨first, earlier⟩
  · exact endsOnBoundary_of_getLast? (fun _ hfinal => by cases hfinal) _
  by_cases hne : later = []
  · subst hne
    exact endsOnBoundary_of_head? (fun _ hnext => by cases hnext) _
  · obtain ⟨rfl, hrest⟩ := List.cons.inj hsplit
    obtain ⟨passed, ahead, hlexemes, rfl, rfl⟩ := Cursor.exists_append_of_placeAll_eq hne hrest
    have hchain := isChain_lexemes hkeeps text.toList
    rw [hlexemes] at hchain
    have hends := endsOnBoundary_of_isChain hchain fun lexeme hmem =>
      ne_nil_of_mem_lexemes (hlexemes ▸ hmem)
    rw [← Cursor.allText_place Cursor.beginning passed, ← Cursor.allText_placeAll] at hends
    exact hends

end Lexer

-- ============================================================================
-- Words
-- ============================================================================

/-- Two places in a text are the same if as many bytes stand in front of them. -/
theorem append_inj_of_byteLength {before behind front back : List Char}
    (h : before ++ behind = front ++ back) (hbytes : byteLength before = byteLength front) :
    before = front ∧ behind = back := by
  have hnil : ∀ {more first : List Char}, byteLength first = byteLength (first ++ more) →
      more = [] := by
    intro more first hsame
    by_contra hne
    have hpos := byteLength_pos hne
    rw [byteLength_append] at hsame
    omega
  rcases List.append_eq_append_iff.1 h with ⟨more, rfl, rfl⟩ | ⟨more, rfl, rfl⟩
  · obtain rfl := hnil hbytes
    simp
  · obtain rfl := hnil hbytes.symm
    simp

namespace Grammar

/-- Words are never split.  Between two word characters that follow each other in a text
    no token of the text begins and none ends, whatever the literals of the grammar are. -/
theorem words_are_never_split (source : String) (grammar : Grammar)
    (h : compile source = .ok grammar) (opening text : String) (before behind : List Char)
    (c d : Char) (htext : text.toList = before ++ c :: d :: behind) (hc : isWord c = true)
    (hd : isWord d = true) :
    ∀ token ∈ ((grammar.lexer.withLineComment opening).tokenize text).toList,
      token.span.start ≠ byteLength (before ++ [c]) ∧
        token.span.stop ≠ byteLength (before ++ [c]) := by
  obtain ⟨rules, -, rfl⟩ := compile_eq_ok.1 h
  -- Both ends of a token are places between tokens.
  have hplaces : ∀ earlier later,
      (((ofRules rules).lexer.withLineComment opening).tokenize text).toList = earlier ++ later →
        byteLength (Token.allText earlier) ≠ byteLength (before ++ [c]) := by
    intro earlier later hsplit hbytes
    have hwhole : Token.allText earlier ++ Token.allText later = (before ++ [c]) ++ d :: behind := by
      rw [List.append_assoc, List.singleton_append, ← htext, ← Lexer.allText_tokenize _ text, hsplit]
      exact List.flatMap_append.symm
    obtain ⟨hearlier, hlater⟩ := append_inj_of_byteLength hwhole hbytes
    have hends := Lexer.endsOnBoundary_of_tokenize_eq (keepsWords_lexer rules opening) hsplit
    rw [hearlier, hlater, endsOnBoundary_iff] at hends
    have hrunsOn := hends c (by simp) d rfl hc
    rw [hd] at hrunsOn
    cases hrunsOn
  intro token htoken
  obtain ⟨earlier, later, hsplit⟩ := List.append_of_mem htoken
  obtain ⟨hstart, hstop⟩ := Lexer.span_of_tokenize_eq hsplit
  rw [hstart, hstop]
  refine ⟨hplaces earlier _ hsplit, hplaces (earlier ++ [token]) later ?_⟩
  rw [hsplit, List.append_assoc, List.singleton_append]

/-- The keyword `<a` does not cut the word behind the symbol `<` in two. -/
theorem word_behind_angle_is_whole :
    ∃ grammar, compile "ROOT := '<' '<=' '<a'" = .ok grammar ∧
      "<a" ∈ grammar.keywords ∧ isWord 'a' = true ∧ isWord 'b' = true ∧
      ((grammar.lexer.withLineComment "#").tokenize "<=<ab").toList.map Token.text =
        ["", "<=", "<", "ab", ""] ∧
      ∀ token ∈ ((grammar.lexer.withLineComment "#").tokenize "<=<ab").toList,
        token.span.start ≠ 4 ∧ token.span.stop ≠ 4 := by
  have hkeyword : "<a" ∈ (ofRules anglesAndWord).keywords := by decide +kernel
  refine ⟨_, compile_anglesAndWord, hkeyword, by decide, by decide, by decide +kernel, ?_⟩
  exact words_are_never_split _ _ compile_anglesAndWord "#" "<=<ab" "<=<".toList [] 'a' 'b' rfl
    (by decide) (by decide)

end Grammar

end TokenGrammar
