/-
  TokenGrammar.Proofs.Match.Lexemes

  Readers between the lexemes of a text.  A reader that stands behind some of the lexemes
  sees the token of the next one and gets behind that by consuming it
  (`Reader.Between.consume`).  Where it stands in the text is where the lexemes that it has
  passed end (`Reader.Between.standsAt`).
-/

import TokenGrammar.Proofs.Lexer.Slices
import TokenGrammar.Proofs.Match.Consumption

namespace TokenGrammar

theorem Lexer.last_tokenize (lexer : Lexer) (text : String) :
    (lexer.tokenize text).last = (lexer.lexemes text.toList).length + 1 := by
  show (Cursor.beginning.mark .beginning ::
    Cursor.beginning.place (lexer.lexemes text.toList)).toArray.size = _
  rw [List.size_toArray, List.length_cons, Cursor.length_place]

namespace Reader

/-- The reader stands on the token that begins at an offset, right behind the one that ends
    there. -/
structure StandsAt (reader : Reader) (offset : Nat) : Prop where
  position_pos : 0 < reader.position
  position_le : reader.position ≤ reader.stream.last
  offset_eq : reader.stream.offset reader.position = offset
  stop_eq : (reader.stream.get (reader.position - 1)).span.stop = offset

/-- The reader stands behind some of the lexemes of a text and in front of the others. -/
structure Between (reader : Reader) (lexer : Lexer) (text : String)
    (passed ahead : List Lexeme) : Prop where
  stream_eq : reader.stream = lexer.tokenize text
  lexemes_eq : lexer.lexemes text.toList = passed ++ ahead
  position_eq : reader.position = passed.length + 1

variable {reader : Reader} {lexer : Lexer} {text : String} {passed ahead : List Lexeme}
  {lexeme : Lexeme}

namespace Between

theorem peekAdjacent_eq (h : reader.Between lexer text passed (lexeme :: ahead)) :
    reader.peekAdjacent = (Cursor.beginning.afterAll passed).token lexeme := by
  rw [peekAdjacent, h.stream_eq, h.position_eq, Lexer.get_tokenize h.lexemes_eq]

theorem cls_peekAdjacent (h : reader.Between lexer text passed (lexeme :: ahead)) :
    reader.peekAdjacent.cls = lexeme.cls := by
  rw [h.peekAdjacent_eq]
  rfl

theorem text_peekAdjacent (h : reader.Between lexer text passed (lexeme :: ahead)) :
    reader.peekAdjacent.text = String.ofList lexeme.text := by
  rw [h.peekAdjacent_eq]
  rfl

theorem stop_peekAdjacent (h : reader.Between lexer text passed (lexeme :: ahead)) :
    reader.peekAdjacent.span.stop = byteLength ((passed ++ [lexeme]).flatMap Lexeme.text) := by
  have hstop : reader.peekAdjacent.span.stop =
      (Cursor.beginning.afterAll passed).offset + byteLength lexeme.text := by
    rw [h.peekAdjacent_eq]
    rfl
  rw [hstop, Cursor.offset_afterAll, List.flatMap_append, List.flatMap_singleton,
    byteLength_append]
  exact congrArg (· + _) (Nat.zero_add _)

theorem peekAdjacent_nil (h : reader.Between lexer text passed []) :
    reader.peekAdjacent = (Cursor.beginning.afterAll passed).mark .ending := by
  have hlexemes : lexer.lexemes text.toList = passed := by rw [h.lexemes_eq, List.append_nil]
  have hlast : (lexer.tokenize text).last ≤ reader.position := by
    rw [Lexer.last_tokenize, hlexemes, h.position_eq]
  rw [peekAdjacent, h.stream_eq, TokenStream.get_of_last_le hlast, ← hlexemes]
  rfl

/-- No token is of a class that the next lexeme, if there is one, is not of. -/
theorem cls_peekAdjacent_ne {cls : TokenClass} (h : reader.Between lexer text passed ahead)
    (hcls : cls ≠ .ending) (hahead : ∀ lexeme ∈ ahead.head?, lexeme.cls ≠ cls) :
    reader.peekAdjacent.cls ≠ cls := by
  cases ahead with
  | nil =>
      rw [h.peekAdjacent_nil]
      exact hcls.symm
  | cons lexeme ahead =>
      rw [h.cls_peekAdjacent]
      exact hahead lexeme rfl

theorem position_le (h : reader.Between lexer text passed ahead) :
    reader.position ≤ reader.stream.last := by
  rw [h.stream_eq, Lexer.last_tokenize, h.position_eq, h.lexemes_eq, List.length_append]
  omega

/-- One more lexeme is passed. -/
theorem consume (h : reader.Between lexer text passed (lexeme :: ahead)) :
    reader.consume.Between lexer text (passed ++ [lexeme]) ahead := by
  have hlt : reader.position < reader.stream.last := by
    rw [h.stream_eq, Lexer.last_tokenize, h.position_eq, h.lexemes_eq, List.length_append,
      List.length_cons]
    omega
  rw [consume_of_lt hlt]
  refine ⟨h.stream_eq, ?_, ?_⟩
  · rw [h.lexemes_eq, List.append_assoc, List.singleton_append]
  · show reader.position + 1 = _
    rw [h.position_eq, List.length_append, List.length_singleton]

/-- The reader stands where the lexemes that it has passed end. -/
theorem standsAt (h : reader.Between lexer text passed ahead) :
    reader.StandsAt (byteLength (passed.flatMap Lexeme.text)) := by
  have hoffset : reader.stream.offset reader.position =
      byteLength (passed.flatMap Lexeme.text) := by
    have hplace : (Cursor.beginning.afterAll passed).offset =
        byteLength (passed.flatMap Lexeme.text) := by
      rw [Cursor.offset_afterAll]
      exact Nat.zero_add _
    rw [← hplace]
    show reader.peekAdjacent.span.start = _
    cases ahead with
    | nil => rw [h.peekAdjacent_nil, Cursor.mark]
    | cons lexeme ahead => rw [h.peekAdjacent_eq, Cursor.token]
  refine ⟨?_, h.position_le, hoffset, ?_⟩
  · rw [h.position_eq]
    exact Nat.succ_pos _
  · have htiles : reader.stream.Tiles := by
      rw [h.stream_eq]
      exact lexer.tiles_tokenize text
    have hbefore : reader.position - 1 + 1 = reader.position := by
      rw [h.position_eq]
      rfl
    have hle := h.position_le
    rw [htiles.touches _ (by omega), hbefore, hoffset]

end Between

-- ============================================================================
-- The first lexeme
-- ============================================================================

theorem cls_first_ne_beginning (lexer : Lexer) (text : String) :
    ((lexer.tokenize text).get 1).cls ≠ .beginning := by
  have htiles := lexer.tiles_tokenize text
  by_cases hlast : 1 < (lexer.tokenize text).last
  · intro hcls
    have htext := htiles.ofText 1 Nat.one_pos hlast
    rw [hcls] at htext
    exact absurd htext (by decide)
  · rw [TokenStream.get_of_last_le (Nat.le_of_not_lt hlast), htiles.ending]
    decide

/-- From the mark at the beginning of a text or from behind it, the first token of a
    terminal is that of the first lexeme, unless this one is stepped over. -/
theorem position_next_of_beginning {start : Nat} {skipLines adjacent : Bool} (hstart : start ≤ 1)
    (h : adjacent = true ∨ ((lexer.tokenize text).get 1).isSkippable skipLines = false) :
    (Reader.next ⟨lexer.tokenize text, start, skipLines⟩ adjacent).position = 1 := by
  have hlast := (lexer.tiles_tokenize text).last_pos
  have hfirst := cls_first_ne_beginning lexer text
  have hbeginning : ((lexer.tokenize text).get 0).cls = .beginning := rfl
  cases adjacent with
  | true =>
      rw [next, if_pos rfl, peekAdjacent]
      dsimp only
      rcases Nat.le_one_iff_eq_zero_or_eq_one.1 hstart with rfl | rfl
      · rw [hbeginning, beq_self_eq_true, if_pos rfl, consume_of_lt hlast]
        rfl
      · rw [beq_eq_false_iff_ne.2 hfirst, if_neg Bool.false_ne_true]
  | false =>
      have hskip := h.resolve_left Bool.false_ne_true
      have hstays (steps : Nat) :
          (lexer.tokenize text).seekSignificant skipLines steps 1 = 1 := by
        cases steps with
        | zero => rfl
        | succ steps =>
            rw [TokenStream.seekSignificant, hskip]
            rfl
      show (lexer.tokenize text).seekSignificant skipLines _ start = 1
      rcases Nat.le_one_iff_eq_zero_or_eq_one.1 hstart with rfl | rfl
      · show (lexer.tokenize text).seekSignificant skipLines (lexer.tokenize text).last 0 = 1
        obtain ⟨steps, hsteps⟩ := Nat.exists_eq_succ_of_ne_zero (Nat.ne_of_gt hlast)
        rw [hsteps, TokenStream.seekSignificant, Token.isSkippable, hbeginning, if_pos rfl]
        exact hstays steps
      · exact hstays _

theorem next_of_beginning {start : Nat} {skipLines adjacent : Bool} (hstart : start ≤ 1)
    (h : adjacent = true ∨ ((lexer.tokenize text).get 1).isSkippable skipLines = false) :
    Reader.next ⟨lexer.tokenize text, start, skipLines⟩ adjacent =
      ⟨1, (Reader.mk (lexer.tokenize text) 1 skipLines).peekAdjacent,
        (Reader.mk (lexer.tokenize text) 1 skipLines).consume⟩ := by
  rw [next_eq, position_next_of_beginning hstart h]
  rfl

/-- A reader behind the mark at the beginning is in front of all lexemes. -/
theorem between_of_beginning (lexer : Lexer) (text : String) (skipLines : Bool) :
    (Reader.mk (lexer.tokenize text) 1 skipLines).Between lexer text []
      (lexer.lexemes text.toList) :=
  ⟨rfl, rfl, rfl⟩

end Reader

end TokenGrammar
