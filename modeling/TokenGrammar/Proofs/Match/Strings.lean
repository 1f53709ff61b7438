/-
  TokenGrammar.Proofs.Match.Strings

  What strings look like.  A lexer splits a quoted string into its quotes and what stands
  between them, which is up to the first quote that no backslash takes along
  (`payload_eq_iff`); a string is matched if that quote comes before the end of the line.

  Main statement: `strings_are_read_whole`.
-/

import TokenGrammar.Proofs.Grammar.Quoting
import TokenGrammar.Proofs.Lexer.Lines
import TokenGrammar.Proofs.Match.Lexemes

namespace TokenGrammar

-- ============================================================================
-- What strings hold
-- ============================================================================

/-- What may stand between two quotes: characters other than the quote, backslashes and line
    breaks, and backslashes that take the next character along, if that is no line break. -/
inductive IsHeld (quote : Char) : List Char → Prop
  | nil : IsHeld quote []
  | plain {c : Char} {held : List Char} : c ∉ [quote, '\\', '\n', '\r'] → IsHeld quote held →
      IsHeld quote (c :: held)
  | escape {c : Char} {held : List Char} : c ∉ ['\n', '\r'] → IsHeld quote held →
      IsHeld quote ('\\' :: c :: held)

/-- What quotes have in common: they are printed, and begin no escape. -/
structure IsQuote (quote : Char) : Prop where
  isWhiteSpace_eq : Unicode.isWhiteSpace quote = false
  isLineBreak_eq : isLineBreak quote = false
  ne_backslash : quote ≠ '\\'

theorem isQuote_of_mem {quote : Char} (h : quote ∈ defaultQuotes) : IsQuote quote := by
  have hquotes : defaultQuotes.all (fun quote =>
      !Unicode.isWhiteSpace quote && !isLineBreak quote && quote != '\\') = true := by decide
  have hquote := List.all_eq_true.1 hquotes quote h
  simp only [Bool.and_eq_true, Bool.not_eq_true', bne_iff_ne] at hquote
  exact ⟨hquote.1.1, hquote.1.2, hquote.2⟩

theorem isLineBreak_eq_false_iff {c : Char} : isLineBreak c = false ↔ c ∉ ['\n', '\r'] := by
  rw [isLineBreak, Bool.or_eq_false_iff, beq_eq_false_iff_ne, beq_eq_false_iff_ne]
  simp only [List.mem_cons, List.not_mem_nil, or_false, not_or]

section Payload

variable {quote : Char} {text held rest : List Char}

/-- A string ends at the first quote that is not taken along. -/
theorem payload_of_isHeld (hquote : IsQuote quote) (h : IsHeld quote held) (rest : List Char) :
    payload quote (held ++ quote :: rest) = (held, quote :: rest) := by
  induction h with
  | nil =>
      rw [List.nil_append, payload]
      · rw [beq_self_eq_true, Bool.or_true]
        rfl
      · exact hquote.ne_backslash
  | @plain c held hc _ ih =>
      simp only [List.mem_cons, List.not_mem_nil, or_false, not_or] at hc
      rw [List.cons_append, payload]
      · have hbreak : isLineBreak c = false := isLineBreak_eq_false_iff.2 (by simp [hc])
        rw [hbreak, beq_eq_false_iff_ne.2 hc.1, ih]
        rfl
      · exact hc.2.1
  | @escape c held hc _ ih =>
      rw [List.cons_append, List.cons_append, payload, if_neg, ih]
      rw [isLineBreak_eq_false_iff.2 hc]
      exact Bool.false_ne_true

theorem isHeld_of_payload (hquote : IsQuote quote)
    (h : payload quote text = (held, quote :: rest)) : IsHeld quote held := by
  fun_induction payload quote text generalizing held with
  | case1 => cases h
  | case2 => cases h
  | case3 next behind hbreak =>
      -- A backslash before a line break leaves the string open.
      rw [(List.cons.inj (Prod.mk.inj h).2).1, hquote.isLineBreak_eq] at hbreak
      cases hbreak
  | case4 next behind hbreak inner left heq ih =>
      obtain ⟨rfl, rfl⟩ := Prod.mk.inj h
      exact .escape (isLineBreak_eq_false_iff.1 (Bool.eq_false_iff.2 hbreak)) (ih heq)
  | case5 =>
      obtain ⟨rfl, -⟩ := Prod.mk.inj h
      exact .nil
  | case6 next behind hnext hstop inner left heq ih =>
      obtain ⟨rfl, rfl⟩ := Prod.mk.inj h
      rw [Bool.or_eq_true, beq_iff_eq, not_or] at hstop
      have hbreak := isLineBreak_eq_false_iff.1 (Bool.eq_false_iff.2 hstop.1)
      simp only [List.mem_cons, List.not_mem_nil, or_false, not_or] at hbreak
      refine .plain ?_ (ih heq)
      simp only [List.mem_cons, List.not_mem_nil, or_false, not_or]
      exact ⟨hstop.2, hnext, hbreak⟩

theorem payload_eq_iff (hquote : IsQuote quote) :
    payload quote text = (held, quote :: rest) ↔
      text = held ++ quote :: rest ∧ IsHeld quote held := by
  constructor
  · intro h
    have hwhole := append_payload quote text
    rw [h] at hwhole
    exact ⟨hwhole.symm, isHeld_of_payload hquote h⟩
  · rintro ⟨rfl, hheld⟩
    exact payload_of_isHeld hquote hheld rest

end Payload

-- ============================================================================
-- The lexemes of strings
-- ============================================================================

/-- The lexeme of a quote. -/
def quoteLexeme (quote : Char) : Lexeme := ⟨.symbol, [quote], false⟩

section Lexemes

variable {quote : Char} {text held left rest : List Char}

theorem scanQuoted_of_closed (h : payload quote text = (held, quote :: rest)) :
    scanQuoted quote text =
      ⟨quoteLexeme quote :: (payloadLexemes held ++ [quoteLexeme quote]), rest⟩ := by
  rw [scanQuoted, h]
  exact if_pos rfl

theorem scanQuoted_of_open (h : payload quote text = (held, left))
    (hleft : ∀ c ∈ left.head?, c ≠ quote) :
    scanQuoted quote text = ⟨quoteLexeme quote :: payloadLexemes held, left⟩ := by
  rw [scanQuoted, h]
  cases left with
  | nil => rfl
  | cons c left => exact if_neg (hleft c rfl)

/-- A lexer takes a quote for the beginning of a string: it knows the quote, and no comment
    begins with it. -/
structure Lexer.Quotes (lexer : Lexer) (quote : Char) : Prop where
  mem : quote ∈ lexer.quotes
  mem_default : quote ∈ defaultQuotes
  head_comment : ∀ opening ∈ lexer.lineComment, ∃ c ∈ opening.toList.head?, c ≠ quote

variable {lexer : Lexer}

theorem Lexer.Quotes.isQuote (h : lexer.Quotes quote) : IsQuote quote :=
  isQuote_of_mem h.mem_default

theorem Lexer.lexemes_quote (h : lexer.Quotes quote) (text : List Char) :
    lexer.lexemes (quote :: text) =
      (scanQuoted quote text).lexemes ++ lexer.lexemes (scanQuoted quote text).rest := by
  have hbare : IsBare quote text :=
    ⟨h.isQuote.isWhiteSpace_eq, fun heq => absurd heq h.isQuote.ne_backslash⟩
  have hnone : lexer.scanComment (quote :: text) = none := by
    unfold scanComment
    split
    · next opening hopening =>
      obtain ⟨c, hc, hne⟩ := h.head_comment opening hopening
      rw [List.eq_cons_of_mem_head? hc, List.isPrefixOf, beq_eq_false_iff_ne.2 hne]
      rfl
    · rfl
  rw [lexemes_cons, lexer.scan_of_isBare hbare, hnone, Option.getD_none, if_pos h.mem]

/-- A line break begins a line end or white space. -/
theorem Lexer.cls_of_mem_head?_lexemes (lexer : Lexer)
    (h : ∀ c ∈ text.head?, isLineBreak c = true) :
    ∀ lexeme ∈ (lexer.lexemes text).head?, lexeme.cls ∈ [TokenClass.line, .space] := by
  cases text with
  | nil =>
      rw [lexemes_nil]
      exact fun lexeme hlexeme => nomatch hlexeme
  | cons c text =>
      have hbare : ¬ IsBare c text := by
        intro hbare
        have hbreak := h c rfl
        rw [hbare.isLineBreak_eq] at hbreak
        cases hbreak
      obtain ⟨lexeme, rest, hscan, hcls⟩ := lexer.scan_of_not_isBare hbare
      rw [lexemes_cons, hscan]
      rintro _ ⟨⟩
      exact hcls

end Lexemes

-- ============================================================================
-- Matching strings
-- ============================================================================

section Match

variable {lexer : Lexer} {source : String} {quote : Char} {held : List Char}
  {passed ahead : List Lexeme} {start : Nat}

/-- What the string holds is read if it holds anything. -/
theorem exists_behind_payload {reader : Reader}
    (h : reader.Between lexer source passed (payloadLexemes held ++ ahead))
    (hahead : ∀ lexeme ∈ ahead.head?, lexeme.cls ≠ .comment) :
    ∃ behind : Reader, behind.Between lexer source (passed ++ payloadLexemes held) ahead ∧
      (if reader.peekAdjacent.cls == .comment then (reader.peekAdjacent.text, reader.consume)
        else ("", reader)) = (String.ofList held, behind) := by
  unfold payloadLexemes at h ⊢
  split at h
  · next hempty =>
    rw [List.nil_append] at h
    have hcls : (reader.peekAdjacent.cls == .comment) = false :=
      beq_eq_false_iff_ne.2 (h.cls_peekAdjacent_ne (by decide) hahead)
    rw [hcls, if_pos hempty, List.append_nil, List.isEmpty_iff.1 hempty]
    exact ⟨reader, h, rfl⟩
  · next hempty =>
    rw [h.cls_peekAdjacent, h.text_peekAdjacent, if_neg hempty]
    exact ⟨reader.consume, h.consume, rfl⟩

/-- Behind its opening quote and what it holds, a string ends in the same quote. -/
theorem matchString_eq (hstart : start ≤ 1) (skipLines adjacent : Bool)
    (hquote : quote ∈ defaultQuotes)
    (hlexemes : lexer.lexemes source.toList =
      quoteLexeme quote :: (payloadLexemes held ++ ahead))
    (hahead : ∀ lexeme ∈ ahead.head?, lexeme.cls ≠ .comment) :
    ∃ behind : Reader,
      behind.Between lexer source (quoteLexeme quote :: payloadLexemes held) ahead ∧
      matchString adjacent ⟨lexer.tokenize source, start, skipLines⟩ =
        if behind.peekAdjacent.isSymbol (String.singleton quote) then
          .ok (⟨.string, String.ofList held, ⟨0, behind.peekAdjacent.span.stop⟩, 1⟩,
            behind.consume)
        else .error ⟨behind.position, .unterminatedString (String.singleton quote)⟩ := by
  obtain ⟨first, hfirst⟩ : ∃ first : Reader, first = ⟨lexer.tokenize source, 1, skipLines⟩ :=
    ⟨_, rfl⟩
  have hbetween : first.Between lexer source []
      (quoteLexeme quote :: (payloadLexemes held ++ ahead)) := by
    rw [hfirst]
    exact ⟨rfl, hlexemes, rfl⟩
  have hmark : first.peekAdjacent = Cursor.beginning.token (quoteLexeme quote) :=
    hbetween.peekAdjacent_eq
  have hskip : ((lexer.tokenize source).get 1).isSkippable skipLines = false := by
    have hget : (lexer.tokenize source).get 1 = first.peekAdjacent := by rw [hfirst]; rfl
    rw [hget, hmark]
    rfl
  have hopen : (first.peekAdjacent.cls == .symbol && isStringQuote first.peekAdjacent.text) =
      true := by
    rw [hmark, Cursor.token, quoteLexeme, beq_self_eq_true, Bool.true_and, isStringQuote,
      String.toList_ofList]
    exact List.contains_iff_mem.2 hquote
  obtain ⟨behind, hbehind, hpayload⟩ := exists_behind_payload hbetween.consume hahead
  refine ⟨behind, hbehind, ?_⟩
  unfold matchString
  rw [Reader.next_of_beginning hstart (.inr hskip), ← hfirst]
  dsimp only
  rw [if_pos hopen, hpayload, hmark, Cursor.token, String.singleton_eq_ofList]
  rfl

variable {text left rest : List Char}

/-- Up to the same quote, a string is matched whole. -/
theorem matchString_of_closed (hlexer : lexer.Quotes quote) (hstart : start ≤ 1)
    (skipLines adjacent : Bool) (hsource : source.toList = quote :: text)
    (h : payload quote text = (held, quote :: rest)) :
    ∃ behind : Reader,
      matchString adjacent ⟨lexer.tokenize source, start, skipLines⟩ =
        .ok (⟨.string, String.ofList held, ⟨0, byteLength (quote :: (held ++ [quote]))⟩, 1⟩,
          behind) ∧
      behind.stream = lexer.tokenize source ∧
      behind.StandsAt (byteLength (quote :: (held ++ [quote]))) := by
  have hlexemes : lexer.lexemes source.toList = quoteLexeme quote ::
      (payloadLexemes held ++ (quoteLexeme quote :: lexer.lexemes rest)) := by
    rw [hsource, Lexer.lexemes_quote hlexer, scanQuoted_of_closed h, List.cons_append,
      List.append_assoc]
    rfl
  have hahead : ∀ lexeme ∈ (quoteLexeme quote :: lexer.lexemes rest).head?,
      lexeme.cls ≠ .comment := by
    rintro _ ⟨⟩
    exact fun hcls => nomatch hcls
  obtain ⟨close, hclose, hmatch⟩ :=
    matchString_eq hstart skipLines adjacent hlexer.mem_default hlexemes hahead
  have hwhole : (quoteLexeme quote :: payloadLexemes held ++ [quoteLexeme quote]).flatMap
      Lexeme.text = quote :: (held ++ [quote]) := by
    rw [List.cons_append, List.flatMap_cons, List.flatMap_append, flatMap_payloadLexemes]
    rfl
  have hsymbol : close.peekAdjacent.isSymbol (String.singleton quote) = true := by
    rw [Token.isSymbol, hclose.cls_peekAdjacent, hclose.text_peekAdjacent, quoteLexeme,
      String.singleton_eq_ofList, beq_self_eq_true, beq_self_eq_true]
    rfl
  rw [if_pos hsymbol, hclose.stop_peekAdjacent, hwhole] at hmatch
  have hstands := hclose.consume.standsAt
  rw [hwhole] at hstands
  exact ⟨_, hmatch, hclose.consume.stream_eq, hstands⟩

/-- Up to the end of the line, no string is matched. -/
theorem matchString_of_open (hlexer : lexer.Quotes quote) (hstart : start ≤ 1)
    (skipLines adjacent : Bool) (hsource : source.toList = quote :: text)
    (h : payload quote text = (held, left))
    (hleft : ∀ rest, left ≠ quote :: rest) :
    ∃ position, matchString adjacent ⟨lexer.tokenize source, start, skipLines⟩ =
      .error ⟨position, .unterminatedString (String.singleton quote)⟩ := by
  have hne : ∀ c ∈ left.head?, c ≠ quote := by
    rintro c hc rfl
    exact hleft _ (List.eq_cons_of_mem_head? hc)
  have hbreak : ∀ c ∈ left.head?, isLineBreak c = true := by
    intro c hc
    have hstops := payload_stops quote text
    rw [h] at hstops
    exact (hstops c hc).resolve_right (hne c hc)
  have hlexemes : lexer.lexemes source.toList =
      quoteLexeme quote :: (payloadLexemes held ++ lexer.lexemes left) := by
    rw [hsource, Lexer.lexemes_quote hlexer, scanQuoted_of_open h hne, List.cons_append]
  -- What begins with a line break is neither held by a string nor a quote.
  have hahead : ∀ cls ∉ [TokenClass.line, .space], ∀ lexeme ∈ (lexer.lexemes left).head?,
      lexeme.cls ≠ cls := by
    rintro cls hcls lexeme hlexeme rfl
    exact hcls (lexer.cls_of_mem_head?_lexemes hbreak lexeme hlexeme)
  obtain ⟨close, hclose, hmatch⟩ := matchString_eq hstart skipLines adjacent hlexer.mem_default
    hlexemes (hahead .comment (by decide))
  have hsymbol : ¬ close.peekAdjacent.isSymbol (String.singleton quote) = true := by
    intro hsymbol
    rw [Token.isSymbol, Bool.and_eq_true, beq_iff_eq] at hsymbol
    exact hclose.cls_peekAdjacent_ne (by decide) (hahead .symbol (by decide)) hsymbol.1
  rw [if_neg hsymbol] at hmatch
  exact ⟨_, hmatch⟩

end Match

/-- A text goes on with what a string may hold, the quote that closes it, and something
    else. -/
structure StringThen (quote : Char) (text held rest : String) : Prop where
  text_eq : text = held ++ String.singleton quote ++ rest
  isHeld : IsHeld quote held.toList

theorem stringThen_iff {quote : Char} (hquote : IsQuote quote) {text held rest : String} :
    StringThen quote text held rest ↔
      payload quote text.toList = (held.toList, quote :: rest.toList) := by
  have htext : text = held ++ String.singleton quote ++ rest ↔
      text.toList = held.toList ++ quote :: rest.toList := by
    rw [← String.toList_inj, String.toList_append, String.toList_append, String.toList_singleton,
      List.append_assoc, List.singleton_append]
  rw [payload_eq_iff hquote, ← htext]
  exact ⟨fun h => ⟨h.text_eq, h.isHeld⟩, fun h => ⟨h.1, h.2⟩⟩

/-- Strings are read whole.  Whatever symbols and keywords a lexer knows, a string is matched
    at a quote exactly if what follows goes on with the rest of one; the match is what the
    string holds, it spans both quotes, and the reader gets right behind them.  There is no
    other reason for a miss than that the string does not end.  (`withLineComment` never
    registers an empty text, so a registered opening has a first character.) -/
theorem strings_are_read_whole (lexer : Lexer) (hquotes : lexer.quotes = defaultQuotes)
    (quote : Char) (hquote : quote ∈ defaultQuotes)
    (hcomment : ∀ opening ∈ lexer.lineComment, ∃ c ∈ opening.toList.head?, c ≠ quote)
    (text : String) (start : Nat) (hstart : start ≤ 1) (skipLines adjacent : Bool) :
    let reader : Reader := ⟨lexer.tokenize (String.singleton quote ++ text), start, skipLines⟩
    (∀ held, (∃ matched behind, matchString adjacent reader = .ok (matched, behind) ∧
        matched.text = held) ↔ ∃ rest, StringThen quote text held rest) ∧
    (∀ matched behind, matchString adjacent reader = .ok (matched, behind) →
      let whole := String.singleton quote ++ matched.text ++ String.singleton quote
      matched = ⟨.string, matched.text, ⟨0, whole.utf8ByteSize⟩, 1⟩ ∧
        behind.stream = reader.stream ∧ behind.StandsAt whole.utf8ByteSize) ∧
    (∀ miss, matchString adjacent reader = .error miss →
      miss.mismatch = .unterminatedString (String.singleton quote)) := by
  intro reader
  have hlexer : lexer.Quotes quote := ⟨hquotes ▸ hquote, hquote, hcomment⟩
  have hsource : (String.singleton quote ++ text).toList = quote :: text.toList := by
    rw [String.toList_append, String.toList_singleton, List.singleton_append]
  obtain ⟨held, left, hpayload⟩ : ∃ held left, payload quote text.toList = (held, left) :=
    ⟨_, _, rfl⟩
  by_cases hcloses : ∃ rest, left = quote :: rest
  · obtain ⟨rest, rfl⟩ := hcloses
    obtain ⟨behind, hmatch, hstream, hstands⟩ :=
      matchString_of_closed hlexer hstart skipLines adjacent hsource hpayload
    have hwhole : byteLength (quote :: (held ++ [quote])) =
        (String.singleton quote ++ String.ofList held ++ String.singleton quote).utf8ByteSize := by
      rw [← byteLength_toList, String.toList_append, String.toList_append,
        String.toList_singleton, String.toList_ofList]
      rfl
    rw [hwhole] at hmatch hstands
    refine ⟨fun other => ⟨?_, ?_⟩, ?_, ?_⟩
    · rintro ⟨matched, after, hok, rfl⟩
      cases hmatch.symm.trans hok
      refine ⟨String.ofList rest, (stringThen_iff hlexer.isQuote).2 ?_⟩
      rw [String.toList_ofList, String.toList_ofList]
      exact hpayload
    · rintro ⟨behind', hthen⟩
      have hother := (stringThen_iff hlexer.isQuote).1 hthen
      rw [hpayload, Prod.mk.injEq] at hother
      exact ⟨_, _, hmatch, by rw [hother.1, String.ofList_toList]⟩
    · intro matched after hok
      cases hmatch.symm.trans hok
      exact ⟨rfl, hstream, hstands⟩
    · intro miss herror
      cases hmatch.symm.trans herror
  · obtain ⟨position, hmiss⟩ := matchString_of_open hlexer hstart skipLines adjacent hsource
      hpayload fun rest hrest => hcloses ⟨rest, hrest⟩
    refine ⟨fun other => ⟨?_, ?_⟩, ?_, ?_⟩
    · rintro ⟨matched, after, hok, -⟩
      cases hmiss.symm.trans hok
    · rintro ⟨rest, hthen⟩
      have hother := (stringThen_iff hlexer.isQuote).1 hthen
      rw [hpayload, Prod.mk.injEq] at hother
      exact absurd ⟨_, hother.2⟩ hcloses
    · intro matched after hok
      cases hmiss.symm.trans hok
    · intro miss herror
      cases hmiss.symm.trans herror
      rfl

/-- An escaped quote does not end a string, and neither does what begins a comment. -/
theorem string_with_escaped_quote_is_read_whole :
    let lexer := (Lexer.base.withKeywords ["a"]).withLineComment "#"
    lexer.quotes = defaultQuotes ∧ '"' ∈ defaultQuotes ∧
    (∀ opening ∈ lexer.lineComment, ∃ c ∈ opening.toList.head?, c ≠ '"') ∧ 0 ≤ 1 ∧
    ∃ behind : Reader,
      matchString true ⟨lexer.tokenize (String.singleton '"' ++ "a\\\"#\" b"), 0, true⟩ =
        .ok (⟨.string, "a\\\"#", ⟨0, 6⟩, 1⟩, behind) ∧ behind.StandsAt 6 := by
  intro lexer
  have hquotes : lexer.quotes = defaultQuotes := rfl
  have hquote : '"' ∈ defaultQuotes := by decide
  have hcomment : ∀ opening ∈ lexer.lineComment, ∃ c ∈ opening.toList.head?, c ≠ '"' := by
    rintro opening ⟨⟩
    exact ⟨'#', rfl, by decide⟩
  have hheld : IsHeld '"' "a\\\"#".toList :=
    .plain (by decide) (.escape (by decide) (.plain (by decide) .nil))
  obtain ⟨hmatches, hplace, -⟩ := strings_are_read_whole lexer hquotes '"' hquote hcomment
    "a\\\"#\" b" 0 (Nat.zero_le 1) true true
  obtain ⟨matched, behind, hmatch, htext⟩ := (hmatches "a\\\"#").2 ⟨" b", rfl, hheld⟩
  obtain ⟨hmatched, -, hstands⟩ := hplace matched behind hmatch
  rw [htext] at hmatched hstands
  rw [hmatched] at hmatch
  exact ⟨hquotes, hquote, hcomment, Nat.zero_le 1, behind, hmatch, hstands⟩

end TokenGrammar
