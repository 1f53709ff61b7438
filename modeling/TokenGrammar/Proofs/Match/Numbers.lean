/-
  TokenGrammar.Proofs.Match.Numbers

  What numbers look like.  A lexer cuts a number up wherever a word ends in it; put together
  again, its tokens are what the grammar of numbers (`IsNumber`) says, and nothing else is.

  Every part of a number has two lemmas: what is read is of the grammar (`exists_of_…`), and
  what is of the grammar is read (`…_eq_ok`).  Both are about the text that is left to be
  read (`PartialNumber.Reads`).

  Main statement: `numbers_are_read_whole`.
-/

import TokenGrammar.Proofs.Match.Lexemes
import TokenGrammar.Proofs.Match.NumberGrammar

namespace TokenGrammar

-- ============================================================================
-- Lexemes of numbers
-- ============================================================================

namespace Lexer

theorem not_mem_quotes_of_isWord {c : Char} (h : isWord c = true) : c ∉ base.quotes := by
  have hquotes : base.quotes.all (!isWord ·) = true := by decide
  intro hc
  have hnot := List.all_eq_true.1 hquotes c hc
  rw [h] at hnot
  cases hnot

theorem scanWords_base (c : Char) (text : List Char) :
    base.scanWords c text =
      (scanRun .identifier isWord (c :: text)).getD (.single .symbol [c] text) := by
  show ([_, _, _].findSome? _).getD _ = _
  have hkeyword : base.scanKeyword (c :: text) = none := rfl
  have hsymbol : base.scanSymbol (c :: text) = none := rfl
  simp only [List.findSome?_cons, hkeyword, hsymbol]
  cases scanRun .identifier isWord (c :: text) <;> rfl

/-- Words are taken whole. -/
theorem lexemes_base_word {text : List Char} (h : text.takeWhile isWord ≠ []) :
    base.lexemes text =
      ⟨.identifier, text.takeWhile isWord, false⟩ :: base.lexemes (text.dropWhile isWord) := by
  cases text with
  | nil => exact absurd rfl h
  | cons c text =>
      have hc : isWord c = true := by
        by_contra hc
        exact h (List.takeWhile_cons_of_neg hc)
      rw [lexemes_cons, scan_of_isBare base (isBare_of_isWord hc text),
        if_neg (not_mem_quotes_of_isWord hc), scanWords_base, scanRun, if_pos hc]
      rfl

/-- Nothing else is taken for a word. -/
theorem isWord_of_mem_scan_base {c : Char} {text : List Char} {lexeme : Lexeme}
    (h : lexeme ∈ (base.scan c text).lexemes) (hcls : lexeme.cls = .identifier) :
    isWord c = true := by
  by_cases hbare : IsBare c text
  · rw [scan_of_isBare base hbare] at h
    change lexeme ∈ (if c ∈ base.quotes then scanQuoted c text
      else base.scanWords c text).lexemes at h
    split at h
    · rcases mem_scanQuoted h with rfl | hheld
      · cases hcls
      · rw [cls_of_mem_payloadLexemes hheld] at hcls
        cases hcls
    · rw [scanWords_base, scanRun] at h
      split at h
      · assumption
      · rw [List.mem_singleton.1 h] at hcls
        cases hcls
  · obtain ⟨only, rest, hscan, honly⟩ := base.scan_of_not_isBare hbare
    rw [hscan] at h
    rw [List.mem_singleton.1 h] at hcls
    rw [hcls] at honly
    exact absurd honly (by decide)

/-- The marks within a number are symbols. -/
theorem lexemes_base_mark {mark : String} (h : mark ∈ [".", "+", "-"]) (rest : List Char) :
    base.lexemes (mark.toList ++ rest) = ⟨.symbol, mark.toList, false⟩ :: base.lexemes rest := by
  simp only [List.mem_cons, List.not_mem_nil, or_false] at h
  rcases h with rfl | rfl | rfl
  · exact base.lexemes_cons '.' rest
  · exact base.lexemes_cons '+' rest
  · exact base.lexemes_cons '-' rest

end Lexer

-- ============================================================================
-- Partial numbers
-- ============================================================================

namespace PartialNumber

/-- The number is what has been read of a text, and this is what is left. -/
structure Reads (number : PartialNumber) (source : String) (rest : List Char) : Prop where
  source_eq : source.toList = number.text.toList ++ rest
  stop_eq : number.stop = number.text.utf8ByteSize
  between : ∃ passed, number.reader.Between Lexer.base source passed (Lexer.base.lexemes rest)

variable {number result : PartialNumber} {source : String} {text rest : List Char}

namespace Reads

theorem standsAt (h : number.Reads source rest) :
    number.reader.StandsAt number.text.utf8ByteSize := by
  obtain ⟨passed, hbetween⟩ := h.between
  have hpassed : passed.flatMap Lexeme.text = number.text.toList := by
    have hwhole := Lexer.base.flatMap_lexemes source.toList
    rw [hbetween.lexemes_eq, List.flatMap_append, Lexer.flatMap_lexemes, h.source_eq] at hwhole
    exact List.append_cancel_right hwhole
  rw [← byteLength_toList, ← hpassed]
  exact hbetween.standsAt

/-- One more token is read. -/
theorem take {lexeme : Lexeme} (h : number.Reads source text)
    (hlexemes : Lexer.base.lexemes text = lexeme :: Lexer.base.lexemes rest) :
    number.next.cls = lexeme.cls ∧ number.next.text.toList = lexeme.text ∧
      number.take.Reads source rest := by
  obtain ⟨passed, hbetween⟩ := h.between
  rw [hlexemes] at hbetween
  have hnext : number.next = (Cursor.beginning.afterAll passed).token lexeme :=
    hbetween.peekAdjacent_eq
  have htext : number.next.text.toList = lexeme.text := by
    rw [hnext]
    exact String.toList_ofList
  have hsplit : text = lexeme.text ++ rest := by
    rw [← Lexer.base.flatMap_lexemes text, hlexemes, List.flatMap_cons, Lexer.flatMap_lexemes]
  refine ⟨by rw [hnext, Cursor.token], htext, ?_, ?_, _, hbetween.consume⟩
  · show _ = (number.text ++ number.next.text).toList ++ rest
    rw [h.source_eq, hsplit, String.toList_append, htext, List.append_assoc]
  · show number.next.span.stop = (number.text ++ number.next.text).utf8ByteSize
    have hstart : number.next.span.start = number.text.utf8ByteSize := h.standsAt.offset_eq
    have hstop : number.next.span.stop = number.next.span.start + byteLength lexeme.text := by
      rw [hnext, Cursor.token]
    rw [hstop, hstart, String.utf8ByteSize_append, ← htext, byteLength_toList]

/-- A word is next where one begins. -/
theorem cls_eq_identifier_iff (h : number.Reads source text) :
    number.next.cls = .identifier ↔ text.takeWhile isWord ≠ [] := by
  constructor
  · intro hcls
    obtain ⟨passed, hbetween⟩ := h.between
    cases text with
    | nil =>
        rw [Lexer.lexemes_nil] at hbetween
        rw [next, hbetween.peekAdjacent_nil] at hcls
        cases hcls
    | cons c text =>
        obtain ⟨first, more, hscan⟩ :=
          List.exists_cons_of_ne_nil (Lexer.base.takes_scan c text).some_lexeme
        rw [Lexer.lexemes_cons, hscan, List.cons_append] at hbetween
        rw [next, hbetween.peekAdjacent_eq] at hcls
        have hc : isWord c = true :=
          Lexer.isWord_of_mem_scan_base (hscan ▸ List.mem_cons_self) hcls
        rw [List.takeWhile_cons_of_pos hc]
        exact List.cons_ne_nil _ _
  · exact fun hword => (h.take (Lexer.lexemes_base_word hword)).1

theorem cls_next_of_digits {base : NumberBase} {digits : List Char} (hdigits : IsDigits base digits)
    (h : number.Reads source (digits ++ rest)) : number.next.cls = .identifier := by
  rw [h.cls_eq_identifier_iff, takeWhile_digits_append hdigits]
  exact List.append_ne_nil_of_left_ne_nil hdigits.1 _

/-- The word is read whole. -/
theorem take_word (h : number.Reads source text) (hcls : number.next.cls = .identifier) :
    number.next.text.toList = text.takeWhile isWord ∧
      number.take.Reads source (text.dropWhile isWord) :=
  (h.take (Lexer.lexemes_base_word (h.cls_eq_identifier_iff.1 hcls))).2

/-- Digits that are a word of their own. -/
theorem take_digits {base : NumberBase} {digits : List Char} (hdigits : IsDigits base digits)
    (hrest : ∀ c ∈ rest.head?, isWord c = false) (h : number.Reads source (digits ++ rest)) :
    number.next.cls = .identifier ∧ number.next.text.toList = digits ∧
      number.take.Reads source rest := by
  have hcls := h.cls_next_of_digits hdigits
  obtain ⟨htext, htaken⟩ := h.take_word hcls
  rw [takeWhile_isWord_append hdigits.isWord hrest] at htext
  rw [dropWhile_isWord_append hdigits.isWord hrest] at htaken
  exact ⟨hcls, htext, htaken⟩

theorem take_mark {mark : String} (hmark : mark ∈ [".", "+", "-"])
    (h : number.Reads source (mark.toList ++ rest)) : number.take.Reads source rest :=
  (h.take (Lexer.lexemes_base_mark hmark rest)).2.2

/-- A mark is next where the text has one. -/
theorem isSymbol_iff {mark : String} (hmark : mark ∈ [".", "+", "-"])
    (h : number.Reads source text) :
    number.next.isSymbol mark = true ↔ ∃ rest, text = mark.toList ++ rest := by
  constructor
  · intro hsymbol
    rw [Token.isSymbol, Bool.and_eq_true, beq_iff_eq, beq_iff_eq] at hsymbol
    obtain ⟨passed, hbetween⟩ := h.between
    cases hlexemes : Lexer.base.lexemes text with
    | nil =>
        rw [hlexemes] at hbetween
        rw [next, hbetween.peekAdjacent_nil] at hsymbol
        cases hsymbol.1
    | cons lexeme more =>
        rw [hlexemes] at hbetween
        rw [next, hbetween.peekAdjacent_eq] at hsymbol
        have htext : lexeme.text = mark.toList := by
          rw [← hsymbol.2]
          exact String.toList_ofList.symm
        refine ⟨more.flatMap Lexeme.text, ?_⟩
        rw [← Lexer.base.flatMap_lexemes text, hlexemes, List.flatMap_cons, htext]
  · rintro ⟨rest, rfl⟩
    obtain ⟨hcls, htext, -⟩ := h.take (Lexer.lexemes_base_mark hmark rest)
    rw [Token.isSymbol, Bool.and_eq_true, beq_iff_eq, beq_iff_eq]
    exact ⟨hcls, String.toList_inj.1 htext⟩

/-- Behind a word, a number goes on exactly if a point is next. -/
theorem isSymbol_point_iff (h : number.Reads source rest)
    (hrest : ∀ c ∈ rest.head?, isWord c = false) :
    number.next.isSymbol "." = true ↔ ¬ EndsNumber rest := by
  rw [h.isSymbol_iff List.mem_cons_self]
  constructor
  · rintro ⟨behind, rfl⟩ hends
    exact (hends '.' rfl).2 rfl
  · intro hends
    by_contra hpoint
    refine hends fun c hc => ⟨hrest c hc, ?_⟩
    rintro rfl
    exact hpoint ⟨rest.tail, List.eq_cons_of_mem_head? hc⟩

theorem withoutPoint_eq_ok_iff {mismatch : Mismatch} (h : number.Reads source rest)
    (hrest : ∀ c ∈ rest.head?, isWord c = false) :
    number.withoutPoint mismatch = .ok result ↔ result = number ∧ EndsNumber rest := by
  unfold withoutPoint
  split
  · next hpoint =>
    exact iff_of_false (fun hok => nomatch hok)
      fun hends => (h.isSymbol_point_iff hrest).1 hpoint hends.2
  · next hpoint =>
    have hends : EndsNumber rest := by
      by_contra hends
      exact hpoint ((h.isSymbol_point_iff hrest).2 hends)
    rw [Except.ok.injEq, and_iff_left hends, eq_comm]

end Reads

-- ============================================================================
-- Exponents
-- ============================================================================

theorem exists_of_takeSign (h : number.Reads source text) :
    ∃ sign rest, text = sign ++ rest ∧ number.takeSign.Reads source rest ∧
      ∀ digits, IsDigits .decimal digits → IsPower (sign ++ digits) := by
  unfold takeSign
  split
  · next hsign =>
    obtain ⟨sign, hmem, hsign⟩ : ∃ sign ∈ ["+", "-"], number.next.isSymbol sign = true := by
      rcases (Bool.or_eq_true _ _).mp hsign with hsign | hsign
      · exact ⟨"+", by decide, hsign⟩
      · exact ⟨"-", by decide, hsign⟩
    have hmark : sign ∈ [".", "+", "-"] := List.mem_cons_of_mem _ hmem
    obtain ⟨rest, rfl⟩ := (h.isSymbol_iff hmark).1 hsign
    exact ⟨sign.toList, rest, rfl, h.take_mark hmark, fun digits => .signed hmem⟩
  · exact ⟨[], text, rfl, h, fun digits => .plain⟩

/-- Behind the marker of an exponent stands what is left of the word, and the text behind
    the word. -/
theorem exists_of_readExponent {position : Nat}
    (h : number.Reads source (text.dropWhile isWord))
    (hok : number.readExponent position (text.takeWhile isWord) = .ok result) :
    ∃ power rest, text = power ++ rest ∧ IsPower power ∧ EndsNumber rest ∧
      result.Reads source rest := by
  have hwhole := List.takeWhile_append_dropWhile (p := isWord) (l := text)
  unfold readExponent at hok
  dsimp only at hok
  split at hok
  · next hempty =>
    rw [List.isEmpty_iff.1 hempty, List.nil_append] at hwhole
    rw [hwhole] at h
    obtain ⟨sign, digits, rfl, hsigned, hpower⟩ := exists_of_takeSign h
    split at hok
    · next hdigits =>
      rw [Bool.and_eq_true, beq_iff_eq] at hdigits
      obtain ⟨htext, htaken⟩ := hsigned.take_word hdigits.1
      obtain ⟨rfl, hends⟩ := (htaken.withoutPoint_eq_ok_iff eq_false_of_mem_head?_dropWhile).1 hok
      rw [htext] at hdigits
      refine ⟨sign ++ digits.takeWhile isWord, digits.dropWhile isWord, ?_,
        hpower _ (isDecimal_iff.1 hdigits.2), hends, htaken⟩
      rw [List.append_assoc, List.takeWhile_append_dropWhile]
    · cases hok
  · split at hok
    · next hdigits =>
      obtain ⟨rfl, hends⟩ := (h.withoutPoint_eq_ok_iff eq_false_of_mem_head?_dropWhile).1 hok
      exact ⟨text.takeWhile isWord, text.dropWhile isWord, hwhole.symm,
        .plain (isDecimal_iff.1 hdigits), hends, h⟩
    · cases hok

theorem takeSign_of_isSymbol {sign : String} (hsign : sign ∈ ["+", "-"])
    (h : number.next.isSymbol sign = true) : number.takeSign = number.take := by
  rw [takeSign, if_pos]
  rw [Bool.or_eq_true]
  simp only [List.mem_cons, List.not_mem_nil, or_false] at hsign
  rcases hsign with rfl | rfl
  · exact .inl h
  · exact .inr h

theorem readExponent_eq_ok {power : List Char} (hpower : IsPower power)
    (hends : EndsNumber rest) (position : Nat)
    (h : number.Reads source ((power ++ rest).dropWhile isWord)) :
    ∃ result, number.readExponent position ((power ++ rest).takeWhile isWord) = .ok result ∧
      result.Reads source rest := by
  cases hpower with
  | plain hdigits =>
      -- The digits are in one word with the marker.
      rw [dropWhile_isWord_append hdigits.isWord hends.endsWord] at h
      rw [takeWhile_isWord_append hdigits.isWord hends.endsWord, readExponent,
        List.isEmpty_eq_false_iff.2 hdigits.1]
      dsimp only
      rw [if_neg Bool.false_ne_true, if_pos (isDecimal_iff.2 hdigits)]
      exact ⟨number, (h.withoutPoint_eq_ok_iff hends.endsWord).2 ⟨rfl, hends⟩, h⟩
  | @signed sign digits hsign hdigits =>
      -- The word ends in the marker, and the sign and the digits are tokens of their own.
      have hmark : sign ∈ [".", "+", "-"] := List.mem_cons_of_mem _ hsign
      have hhead := isWord_head?_mark hmark (digits ++ rest)
      rw [List.append_assoc, dropWhile_isWord_of_head hhead] at h
      obtain ⟨hcls, htext, htaken⟩ := (h.take_mark hmark).take_digits hdigits hends.endsWord
      rw [List.append_assoc, takeWhile_isWord_of_head hhead, readExponent, List.isEmpty_nil,
        if_pos rfl, takeSign_of_isSymbol hsign ((h.isSymbol_iff hmark).2 ⟨_, rfl⟩)]
      dsimp only
      rw [hcls, htext, isDecimal_iff.2 hdigits, beq_self_eq_true, Bool.and_self, if_pos rfl]
      exact ⟨_, (htaken.withoutPoint_eq_ok_iff hends.endsWord).2 ⟨rfl, hends⟩, htaken⟩

-- ============================================================================
-- Fractions
-- ============================================================================

theorem exists_of_readFraction {base : NumberBase} (h : number.Reads source text)
    (hok : number.readFraction base = .ok result) :
    ∃ fraction rest, text = fraction ++ rest ∧ IsFraction base fraction ∧ EndsNumber rest ∧
      result.Reads source rest := by
  unfold readFraction at hok
  dsimp only at hok
  split at hok
  · next hcls =>
    obtain ⟨htext, htaken⟩ := h.take_word (eq_of_beq hcls)
    rw [htext] at hok
    split at hok
    · cases hok
    · next left hread =>
      obtain ⟨digits, marker, behind, hdigits, hmarker, rfl, rfl⟩ :=
        exists_of_readDigits_takeWhile hread
      rw [dropWhile_digits_marker hdigits hmarker] at htaken
      obtain ⟨power, rest, rfl, hpower, hends, hresult⟩ := exists_of_readExponent htaken hok
      refine ⟨digits ++ marker :: power, rest, ?_, .exponent hdigits hmarker hpower, hends,
        hresult⟩
      rw [List.append_assoc, List.cons_append]
    · next hdigits =>
      split at hok
      · cases hok
      · obtain ⟨rfl, hends⟩ := (htaken.withoutPoint_eq_ok_iff eq_false_of_mem_head?_dropWhile).1 hok
        exact ⟨text.takeWhile isWord, text.dropWhile isWord,
          List.takeWhile_append_dropWhile.symm, .digits (readDigits_eq_ok_none_iff.1 hdigits),
          hends, htaken⟩
  · cases hok

theorem readFraction_eq_ok {base : NumberBase} {fraction : List Char}
    (hfraction : IsFraction base fraction) (hends : EndsNumber rest)
    (h : number.Reads source (fraction ++ rest)) :
    ∃ result, number.readFraction base = .ok result ∧ result.Reads source rest := by
  cases hfraction with
  | digits hdigits =>
      obtain ⟨hcls, htext, htaken⟩ := h.take_digits hdigits hends.endsWord
      unfold readFraction
      dsimp only
      rw [hcls, htext, readDigits_eq_ok_none_iff.2 hdigits, beq_self_eq_true, if_pos rfl]
      exact ⟨_, (htaken.withoutPoint_eq_ok_iff hends.endsWord).2 ⟨rfl, hends⟩, htaken⟩
  | @exponent _ digits power marker hdigits hmarker hpower =>
      rw [List.append_assoc, List.cons_append] at h
      have hcls := h.cls_next_of_digits hdigits
      obtain ⟨htext, htaken⟩ := h.take_word hcls
      rw [dropWhile_digits_marker hdigits hmarker] at htaken
      unfold readFraction
      dsimp only
      rw [hcls, htext, readDigits_takeWhile_marker hdigits hmarker, beq_self_eq_true, if_pos rfl]
      exact readExponent_eq_ok hpower hends _ htaken

-- ============================================================================
-- What follows the first word
-- ============================================================================

theorem exists_of_readRest {base : NumberBase} {position : Nat}
    (hsplit : splitBase number.text.toList = (base, text.takeWhile isWord))
    (h : number.Reads source (text.dropWhile isWord))
    (hok : number.readRest position = .ok result) :
    ∃ whole tail rest, text = whole ++ (tail ++ rest) ∧ IsDigits base whole ∧
      IsTail base tail ∧ EndsNumber rest ∧ result.Reads source rest := by
  unfold readRest at hok
  rw [hsplit] at hok
  dsimp only at hok
  split at hok
  · cases hok
  · next left hread =>
    obtain ⟨whole, marker, behind, hwhole, hmarker, rfl, rfl⟩ :=
      exists_of_readDigits_takeWhile hread
    rw [dropWhile_digits_marker hwhole hmarker] at h
    obtain ⟨power, rest, rfl, hpower, hends, hresult⟩ := exists_of_readExponent h hok
    exact ⟨whole, marker :: power, rest, rfl, hwhole, .exponent hmarker hpower, hends, hresult⟩
  · next hdigits =>
    have hwhole := readDigits_eq_ok_none_iff.1 hdigits
    have htext := List.takeWhile_append_dropWhile (p := isWord) (l := text)
    split at hok
    · next hpoint =>
      obtain ⟨behind, hbehind⟩ := (h.isSymbol_iff List.mem_cons_self).1 hpoint
      rw [hbehind] at h htext
      obtain ⟨fraction, rest, rfl, hfraction, hends, hresult⟩ :=
        exists_of_readFraction (h.take_mark List.mem_cons_self) hok
      exact ⟨_, '.' :: fraction, rest, htext.symm, hwhole, .fraction hfraction, hends, hresult⟩
    · next hpoint =>
      cases hok
      have hends : EndsNumber (text.dropWhile isWord) := by
        by_contra hends
        exact hpoint ((h.isSymbol_point_iff eq_false_of_mem_head?_dropWhile).2 hends)
      exact ⟨_, [], _, htext.symm, hwhole, .none, hends, h⟩

theorem readRest_eq_ok {base : NumberBase} {whole tail : List Char} (position : Nat)
    (hsplit : splitBase number.text.toList =
      (base, (whole ++ (tail ++ rest)).takeWhile isWord))
    (hwhole : IsDigits base whole) (htail : IsTail base tail) (hends : EndsNumber rest)
    (h : number.Reads source ((whole ++ (tail ++ rest)).dropWhile isWord)) :
    ∃ result, number.readRest position = .ok result ∧ result.Reads source rest := by
  unfold readRest
  rw [hsplit]
  dsimp only
  cases htail with
  | none =>
      rw [List.nil_append] at h ⊢
      rw [dropWhile_isWord_append hwhole.isWord hends.endsWord] at h
      have hpoint : ¬ number.next.isSymbol "." = true := fun hsymbol =>
        (h.isSymbol_point_iff hends.endsWord).1 hsymbol hends
      rw [takeWhile_isWord_append hwhole.isWord hends.endsWord,
        readDigits_eq_ok_none_iff.2 hwhole]
      dsimp only
      rw [if_neg hpoint]
      exact ⟨number, rfl, h⟩
  | @exponent marker power hmarker hpower =>
      rw [List.cons_append] at h ⊢
      rw [dropWhile_digits_marker hwhole hmarker] at h
      rw [readDigits_takeWhile_marker hwhole hmarker]
      exact readExponent_eq_ok hpower hends _ h
  | @fraction fraction hfraction =>
      -- The word ends in front of the point.
      have hmark : "." ∈ [".", "+", "-"] := List.mem_cons_self
      have hhead := isWord_head?_mark hmark (fraction ++ rest)
      have hpoint : (fraction ++ rest).cons '.' = ".".toList ++ (fraction ++ rest) := rfl
      rw [List.cons_append, hpoint] at h ⊢
      rw [dropWhile_isWord_append hwhole.isWord hhead] at h
      rw [takeWhile_isWord_append hwhole.isWord hhead, readDigits_eq_ok_none_iff.2 hwhole]
      dsimp only
      rw [if_pos ((h.isSymbol_iff hmark).2 ⟨_, rfl⟩)]
      exact readFraction_eq_ok hfraction hends (h.take_mark hmark)

end PartialNumber

-- ============================================================================
-- Whole numbers
-- ============================================================================

/-- Nothing has been read of a text. -/
def PartialNumber.origin (source : String) (skipLines : Bool) : PartialNumber :=
  ⟨"", 0, ⟨Lexer.base.tokenize source, 1, skipLines⟩⟩

section Match

variable {source : String} {skipLines : Bool}

theorem PartialNumber.reads_origin (source : String) (skipLines : Bool) :
    (origin source skipLines).Reads source source.toList :=
  ⟨rfl, rfl, [], Reader.between_of_beginning Lexer.base source skipLines⟩

open PartialNumber in
/-- Nothing is skipped in front of the first word of a text. -/
theorem matchNumber_beginning_eq_ok_iff {matched : Matched} {behind : Reader} :
    matchNumber true ⟨Lexer.base.tokenize source, 0, skipLines⟩ = .ok (matched, behind) ↔
      ((origin source skipLines).next.cls = .identifier ∧
        (origin source skipLines).next.text.toList.head?.any Char.isDigit = true) ∧
      ∃ number, (origin source skipLines).take.readRest 1 = .ok number ∧
        matched = ⟨.number, number.text, ⟨0, number.stop⟩, 1⟩ ∧ behind = number.reader := by
  have hnext : Reader.next ⟨Lexer.base.tokenize source, 0, skipLines⟩ true =
      ⟨1, (origin source skipLines).next, (origin source skipLines).reader.consume⟩ :=
    Reader.next_of_beginning (Nat.zero_le 1) (.inl rfl)
  have hstart : (⟨(origin source skipLines).next.text, (origin source skipLines).next.span.stop,
      (origin source skipLines).reader.consume⟩ : PartialNumber) =
        (origin source skipLines).take := by
    rw [PartialNumber.take, show (origin source skipLines).text = "" from rfl,
      String.empty_append]
  have hzero : (origin source skipLines).next.span.start = 0 :=
    (reads_origin source skipLines).standsAt.offset_eq
  rw [matchNumber_eq_ok_iff, hnext]
  dsimp only
  rw [hstart, hzero]

/-- What is matched is a number. -/
theorem exists_of_matchNumber {matched : Matched} {behind : Reader}
    (h : matchNumber true ⟨Lexer.base.tokenize source, 0, skipLines⟩ = .ok (matched, behind)) :
    ∃ (number : PartialNumber) (rest : List Char), number.Reads source rest ∧
      IsNumber number.text.toList ∧ EndsNumber rest ∧
      matched = ⟨.number, number.text, ⟨0, number.stop⟩, 1⟩ ∧ behind = number.reader := by
  obtain ⟨⟨hcls, -⟩, number, hread, hmatched, hbehind⟩ := matchNumber_beginning_eq_ok_iff.1 h
  obtain ⟨htext, htaken⟩ := (PartialNumber.reads_origin source skipLines).take_word hcls
  obtain ⟨base, before, text, hsource, hsplit, hdrop, hnumber⟩ := exists_splitBase source.toList
  rw [hdrop] at htaken
  have hstart : (PartialNumber.origin source skipLines).take.text.toList =
      source.toList.takeWhile isWord := by
    rw [← htext, PartialNumber.take, String.toList_append]
    rfl
  rw [← hstart] at hsplit
  obtain ⟨whole, tail, rest, rfl, hwhole, htail, hends, hreads⟩ :=
    PartialNumber.exists_of_readRest hsplit htaken hread
  have hwholeText : number.text.toList = before ++ (whole ++ tail) := by
    refine List.append_cancel_right (hreads.source_eq.symm.trans ?_)
    rw [hsource, List.append_assoc, List.append_assoc]
  refine ⟨number, rest, hreads, ?_, hends, hmatched, hbehind⟩
  rw [hwholeText]
  exact hnumber whole tail hwhole htail

/-- Numbers are matched. -/
theorem matchNumber_eq_ok {text rest : List Char} (hsource : source.toList = text ++ rest)
    (hnumber : IsNumber text) (hends : EndsNumber rest) :
    ∃ number : PartialNumber, number.Reads source rest ∧
      matchNumber true ⟨Lexer.base.tokenize source, 0, skipLines⟩ =
        .ok (⟨.number, number.text, ⟨0, number.stop⟩, 1⟩, number.reader) := by
  obtain ⟨base, whole, tail, hwhole, htail, hsplit, hdrop⟩ := hnumber.exists_splitBase hends
  obtain ⟨c, more, rfl, hc⟩ := hnumber.exists_digit
  have hfirst := PartialNumber.reads_origin source skipLines
  rw [hsource] at hfirst
  have hword : isWord c = true :=
    NumberBase.isWord_of_mem_digits ((@NumberBase.isDigit_iff .decimal c).1 hc)
  have htake : (c :: more ++ rest).takeWhile isWord = c :: (more ++ rest).takeWhile isWord :=
    List.takeWhile_cons_of_pos hword
  have hcls : (PartialNumber.origin source skipLines).next.cls = .identifier := by
    rw [hfirst.cls_eq_identifier_iff, htake]
    exact List.cons_ne_nil _ _
  obtain ⟨htext, htaken⟩ := hfirst.take_word hcls
  rw [hdrop] at htaken
  have hstart : (PartialNumber.origin source skipLines).take.text.toList =
      (c :: more ++ rest).takeWhile isWord := by
    rw [← htext, PartialNumber.take, String.toList_append]
    rfl
  rw [← hstart] at hsplit
  obtain ⟨number, hread, hreads⟩ :=
    PartialNumber.readRest_eq_ok 1 hsplit hwhole htail hends htaken
  refine ⟨number, hreads,
    matchNumber_beginning_eq_ok_iff.2 ⟨⟨hcls, ?_⟩, number, hread, rfl, rfl⟩⟩
  rw [htext, htake]
  exact hc

end Match

/-- A text is a number, and then something that does not go on with it. -/
structure NumberThen (source number rest : String) : Prop where
  source_eq : source = number ++ rest
  isNumber : IsNumber number.toList
  endsNumber : EndsNumber rest.toList

/-- Numbers are read whole.  At the beginning of a text that is split by a lexer that knows
    no words, a number is matched exactly if the text begins with one that does not go on;
    there is only one such number, it is matched where it stands, and the reader gets right
    behind it. -/
theorem numbers_are_read_whole (source : String) (skipLines : Bool) :
    let reader : Reader := ⟨Lexer.base.tokenize source, 0, skipLines⟩
    (∀ number, (∃ matched behind, matchNumber true reader = .ok (matched, behind) ∧
        matched.text = number) ↔ ∃ rest, NumberThen source number rest) ∧
    (∀ number rest other behind, NumberThen source number rest →
      NumberThen source other behind → number = other) ∧
    (∀ matched behind, matchNumber true reader = .ok (matched, behind) →
      matched = ⟨.number, matched.text, ⟨0, matched.text.utf8ByteSize⟩, 1⟩ ∧
        behind.stream = reader.stream ∧ behind.StandsAt matched.text.utf8ByteSize) := by
  intro reader
  have hcomplete : ∀ {number rest}, NumberThen source number rest →
      ∃ matched behind, matchNumber true reader = .ok (matched, behind) ∧
        matched.text = number := by
    rintro number rest ⟨rfl, hnumber, hends⟩
    obtain ⟨result, hreads, hmatch⟩ := matchNumber_eq_ok String.toList_append hnumber hends
    refine ⟨_, _, hmatch, String.toList_inj.1 ?_⟩
    exact List.append_cancel_right (hreads.source_eq.symm.trans String.toList_append)
  refine ⟨fun number => ⟨?_, fun ⟨rest, hthen⟩ => hcomplete hthen⟩, ?_, ?_⟩
  · rintro ⟨matched, behind, hmatch, rfl⟩
    obtain ⟨number, rest, hreads, hnumber, hends, rfl, -⟩ := exists_of_matchNumber hmatch
    refine ⟨String.ofList rest, String.toList_inj.1 ?_, hnumber, ?_⟩
    · rw [hreads.source_eq, String.toList_append, String.toList_ofList]
    · rw [String.toList_ofList]
      exact hends
  · intro number rest other behind hthen hother
    obtain ⟨matched, after, hmatch, rfl⟩ := hcomplete hthen
    obtain ⟨matched', after', hmatch', rfl⟩ := hcomplete hother
    cases hmatch.symm.trans hmatch'
    rfl
  · intro matched behind hmatch
    obtain ⟨number, rest, hreads, -, -, rfl, rfl⟩ := exists_of_matchNumber hmatch
    refine ⟨by rw [hreads.stop_eq], ?_, hreads.standsAt⟩
    obtain ⟨passed, hbetween⟩ := hreads.between
    exact hbetween.stream_eq

/-- Five tokens make up a number in front of a semicolon. -/
theorem float_in_front_of_semicolon_is_read_whole :
    NumberThen "0x1A.2p+3;" "0x1A.2p+3" ";" ∧
    ∃ behind : Reader,
      matchNumber true ⟨Lexer.base.tokenize "0x1A.2p+3;", 0, true⟩ =
        .ok (⟨.number, "0x1A.2p+3", ⟨0, 9⟩, 1⟩, behind) ∧ behind.StandsAt 9 := by
  have hpower : IsPower ("+".toList ++ ['3']) := .signed (by decide) (by decide)
  have hfraction : IsFraction .hex (['2'] ++ 'p' :: ("+".toList ++ ['3'])) :=
    .exponent (by decide) (by decide) hpower
  have hwhole : IsDigits .hex ['1', 'A'] := by decide
  have hends : EndsNumber ";".toList := by
    rintro c ⟨⟩
    decide
  have hthen : NumberThen "0x1A.2p+3;" "0x1A.2p+3" ";" :=
    ⟨rfl, .hex (.inl rfl) hwhole (.fraction hfraction), hends⟩
  obtain ⟨hmatches, -, hplace⟩ := numbers_are_read_whole "0x1A.2p+3;" true
  obtain ⟨matched, behind, hmatch, htext⟩ := (hmatches "0x1A.2p+3").2 ⟨";", hthen⟩
  obtain ⟨hmatched, -, hstands⟩ := hplace matched behind hmatch
  rw [htext] at hmatched hstands
  rw [hmatched] at hmatch
  exact ⟨hthen, behind, hmatch, hstands⟩

end TokenGrammar
