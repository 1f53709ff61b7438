/-
  TokenGrammar.Proofs.Grammar.Relexing

  The tokens of a printed grammar are those of its pieces, as long as no two pieces run
  into each other and the literals are plain (`Piece.lexemes_flatMap`), and so are its
  items (`Piece.ofTokens_place`).
-/

import Mathlib.Data.List.Chain
import TokenGrammar.Proofs.Grammar.Notation
import TokenGrammar.Proofs.Grammar.Items
import TokenGrammar.Proofs.Grammar.Pieces

namespace TokenGrammar

namespace Piece

-- ============================================================================
-- Rows of pieces
-- ============================================================================

/-- Whether a piece can be printed by a grammar that has been compiled: words are words,
    signs are those of the notation, and literals hold something but no line end other
    than a line feed. -/
def Sound : Piece → Prop
  | .word text => IsWordText text.toList
  | .sign text => text ∈ Grammar.signs
  | .literal text => text.toList ≠ [] ∧ ∀ c ∈ text.toList, isLineBreak c = true → c = '\n'
  | .blank => True
  | .lineEnd => True

/-- Whether a piece reads as it is meant to. -/
def Plain : Piece → Prop
  | .literal text => IsPlain text
  | _ => True

/-- Whether a piece does not run into the one behind it. -/
def MayPrecede : Piece → Piece → Prop
  | .word _, .word _ => False
  | .blank, .blank => False
  | _, _ => True

/-- Whether a piece ends where some text begins. -/
def EndsBefore (piece : Piece) (rest : List Char) : Prop :=
  match piece with
  | .word _ => ∀ c ∈ rest.head?, isWord c = false
  | .blank => ∀ c ∈ rest.head?, isBlank c = false
  | _ => True

theorem endsBefore_nil (piece : Piece) : piece.EndsBefore [] := by
  cases piece with
  | word text => exact fun _ h => nomatch h
  | blank => exact fun _ h => nomatch h
  | sign => trivial
  | literal => trivial
  | lineEnd => trivial

/-- What a piece begins with. -/
theorem exists_head_chars {piece : Piece} (h : piece.Sound) :
    ∃ c, (∀ rest, (piece.chars ++ rest).head? = some c) ∧
      ((∀ text, piece ≠ .word text) → isWord c = false) ∧
      (piece ≠ .blank → isBlank c = false) := by
  cases piece with
  | word text =>
      obtain ⟨c, cs, hcs⟩ := List.exists_cons_of_ne_nil h.1
      refine ⟨c, fun rest => ?_, fun hnot => absurd rfl (hnot text), fun _ => ?_⟩
      · rw [chars, hcs]
        rfl
      · exact isBlank_eq_false_of_isWord (h.2 c (by simp [hcs]))
  | sign text =>
      have hsigns : Grammar.signs.all
          (·.toList.head?.any fun c => !isWord c && !isBlank c) = true := by decide
      obtain ⟨c, hc, hnot⟩ := (Option.any_eq_true _ _).1 (List.all_eq_true.1 hsigns text h)
      rw [Bool.and_eq_true, Bool.not_eq_true', Bool.not_eq_true'] at hnot
      refine ⟨c, fun rest => ?_, fun _ => hnot.1, fun _ => hnot.2⟩
      rw [chars, List.head?_append, hc]
      rfl
  | literal text =>
      have hquotes : literalQuotes.all (fun c => !isWord c && !isBlank c) = true := by decide
      have hnot := List.all_eq_true.1 hquotes _ (quoteOf_mem text)
      rw [Bool.and_eq_true, Bool.not_eq_true', Bool.not_eq_true'] at hnot
      exact ⟨quoteOf text, fun rest => rfl, fun _ => hnot.1, fun _ => hnot.2⟩
  | blank => exact ⟨' ', fun rest => rfl, fun _ => by decide, fun hnot => absurd rfl hnot⟩
  | lineEnd => exact ⟨'\n', fun rest => rfl, fun _ => by decide, fun _ => by decide⟩

theorem MayPrecede.endsBefore {piece next : Piece} (h : piece.MayPrecede next)
    (hnext : next.Sound) (rest : List Char) : piece.EndsBefore (next.chars ++ rest) := by
  obtain ⟨c, hhead, hword, hblank⟩ := exists_head_chars hnext
  cases piece with
  | word text =>
      intro other hother
      rw [hhead rest, Option.mem_some_iff] at hother
      rw [← hother]
      apply hword
      rintro text' rfl
      exact h
  | blank =>
      intro other hother
      rw [hhead rest, Option.mem_some_iff] at hother
      rw [← hother]
      apply hblank
      rintro rfl
      exact h
  | sign => trivial
  | literal => trivial
  | lineEnd => trivial

-- ============================================================================
-- Lexemes
-- ============================================================================

/-- The lexemes of a piece. -/
def lexemes : Piece → List Lexeme
  | .word text => [⟨wordClass text, text.toList, false⟩]
  | .sign text => [⟨.symbol, text.toList, false⟩]
  | .literal text =>
    [⟨.symbol, [quoteOf text], false⟩, ⟨.comment, text.toList, false⟩,
      ⟨.symbol, [quoteOf text], false⟩]
  | .blank => [⟨.space, [' '], false⟩]
  | .lineEnd => [⟨.line, ['\n'], true⟩]

/-- A plain piece is taken off a text as it was meant. -/
theorem lexemes_append {piece : Piece} (hsound : piece.Sound) (hplain : piece.Plain)
    {rest : List Char} (hends : piece.EndsBefore rest) :
    Grammar.sourceLexer.lexemes (piece.chars ++ rest) =
      piece.lexemes ++ Grammar.sourceLexer.lexemes rest := by
  cases piece with
  | word text => exact Grammar.lexemes_word hsound hends
  | sign text => exact Grammar.lexemes_sign hsound rest
  | literal text =>
      have hpayload := payload_of_isPlain hplain hsound.2 rest
      have hscan : scanQuoted (quoteOf text) (text.toList ++ quoteOf text :: rest) =
          ⟨(Piece.literal text).lexemes, rest⟩ := by
        rw [scanQuoted, hpayload]
        dsimp only
        rw [if_pos rfl, payloadLexemes, List.isEmpty_eq_false_iff.2 hsound.1]
        rfl
      have hquoted := Grammar.lexemes_quoted (quoteOf_mem text) (text.toList ++ quoteOf text :: rest)
      rw [hscan] at hquoted
      rw [chars, List.cons_append, List.append_assoc]
      exact hquoted
  | blank => exact Grammar.lexemes_blank hends
  | lineEnd => exact Grammar.lexemes_lineEnd rest

/-- Plain pieces none of which runs into the next one are taken off one by one. -/
theorem lexemes_flatMap {pieces : List Piece} {rest : List Char}
    (hchain : pieces.IsChain MayPrecede) (hsound : ∀ piece ∈ pieces, piece.Sound)
    (hplain : ∀ piece ∈ pieces, piece.Plain)
    (hlast : ∀ piece ∈ pieces.getLast?, piece.EndsBefore rest) :
    Grammar.sourceLexer.lexemes (pieces.flatMap chars ++ rest) =
      pieces.flatMap lexemes ++ Grammar.sourceLexer.lexemes rest := by
  induction pieces with
  | nil => rfl
  | cons piece more ih =>
      have hends : piece.EndsBefore (more.flatMap chars ++ rest) := by
        cases more with
        | nil => exact hlast piece rfl
        | cons next more =>
            rw [List.flatMap_cons, List.append_assoc]
            exact (List.isChain_cons_cons.1 hchain).1.endsBefore (hsound next (by simp)) _
      have hmore := ih hchain.tail (fun piece h => hsound piece (List.mem_cons_of_mem _ h))
        (fun piece h => hplain piece (List.mem_cons_of_mem _ h)) (by
          intro last h
          apply hlast
          rw [List.getLast?_cons, Option.mem_def.1 h]
          rfl)
      rw [List.flatMap_cons, List.append_assoc, lexemes_append (hsound piece List.mem_cons_self)
        (hplain piece List.mem_cons_self) hends, hmore, List.flatMap_cons, List.append_assoc]

-- ============================================================================
-- Items
-- ============================================================================

/-- The items of a piece that stands at a place. -/
def items (cursor : Cursor) : Piece → List Item
  | .word text => [.single (cursor.token ⟨wordClass text, text.toList, false⟩)]
  | .sign text => [.single (cursor.token ⟨.symbol, text.toList, false⟩)]
  | .literal text =>
    let mark : Lexeme := ⟨.symbol, [quoteOf text], false⟩
    let held : Lexeme := ⟨.comment, text.toList, false⟩
    let behind := (cursor.after mark).after held
    [.literal (cursor.token mark) ((cursor.after mark).token held) (behind.token mark)]
  | .blank => []
  | .lineEnd => [.single (cursor.token ⟨.line, ['\n'], true⟩)]

/-- The items of pieces that follow each other from a place on. -/
def allItems (cursor : Cursor) : List Piece → List Item
  | [] => []
  | piece :: rest => piece.items cursor ++ allItems (cursor.afterAll piece.lexemes) rest

theorem allItems_append (cursor : Cursor) (pieces more : List Piece) :
    allItems cursor (pieces ++ more) =
      allItems cursor pieces ++ allItems (cursor.afterAll (pieces.flatMap lexemes)) more := by
  induction pieces generalizing cursor with
  | nil => rfl
  | cons piece rest ih =>
      rw [List.cons_append, allItems, allItems, ih, List.append_assoc, List.flatMap_cons,
        Cursor.afterAll_append]

end Piece

namespace Item

/-- A token that is no quote is an item of its own, or none. -/
theorem ofTokens_cons_of_openingQuote? {token : Token} (h : openingQuote? token = none)
    (rest : List Token) : ofTokens (token :: rest) = ofToken token ++ ofTokens rest := by
  apply ofTokens_cons
  intro payload close behind _
  rw [isLiteral, h]
  rfl

end Item

namespace Piece

theorem cls_word (word : String) : wordClass word = .keyword ∨ wordClass word = .identifier := by
  unfold wordClass
  split
  · exact .inl rfl
  · exact .inr rfl

theorem openingQuote?_sign {sign : String} (h : sign ∈ Grammar.signs) (cursor : Cursor) :
    openingQuote? (cursor.token ⟨.symbol, sign.toList, false⟩) = none := by
  have hhead : ∀ sign ∈ Grammar.signs, sign.toList.head?.any literalQuotes.contains = false := by
    decide
  have hfree := hhead sign h
  unfold openingQuote?
  split
  · next c cs _ htext =>
    rw [Cursor.token, String.toList_ofList] at htext
    dsimp only at htext
    rw [htext, List.head?_cons, Option.any_some] at hfree
    rw [hfree]
    rfl
  · rfl

theorem openingQuote?_mark {quote : Char} (h : quote ∈ literalQuotes) (cursor : Cursor) :
    openingQuote? (cursor.token ⟨.symbol, [quote], false⟩) = some quote := by
  have hmark : openingQuote? (cursor.token ⟨.symbol, [quote], false⟩) =
      if literalQuotes.contains quote then some quote else none := by
    unfold openingQuote?
    simp only [Cursor.token, String.toList_ofList]
  rw [hmark, if_pos (List.contains_iff_mem.2 h)]

/-- Whatever stands between two quotes makes a literal of them. -/
theorem isLiteral_place {quote : Char} (h : quote ∈ literalQuotes) (held : List Char)
    (first second third : Cursor) :
    isLiteral (first.token ⟨.symbol, [quote], false⟩) (second.token ⟨.comment, held, false⟩)
      (third.token ⟨.symbol, [quote], false⟩) = true := by
  refine isLiteral_iff.2 ⟨?_, rfl, Token.isSymbol_iff.2 ⟨rfl, rfl⟩⟩
  rw [openingQuote?_mark h]
  rfl

/-- The tokens of a piece make up its items. -/
theorem ofTokens_place_append {piece : Piece} (h : piece.Sound) (cursor : Cursor)
    (rest : List Token) :
    Item.ofTokens (cursor.place piece.lexemes ++ rest) =
      piece.items cursor ++ Item.ofTokens rest := by
  have hother : ∀ lexeme : Lexeme, lexeme.cls ≠ .symbol → ∀ rest,
      Item.ofTokens (cursor.token lexeme :: rest) =
        Item.ofToken (cursor.token lexeme) ++ Item.ofTokens rest := fun lexeme hcls rest =>
    Item.ofTokens_cons_of_openingQuote? (openingQuote?_eq_none_of_cls hcls) rest
  cases piece with
  | word text =>
      have hcls := cls_word text
      have hitem : Item.ofToken (cursor.token ⟨wordClass text, text.toList, false⟩) =
          (Piece.word text).items cursor := by
        rw [Item.ofToken, if_neg]
        · rfl
        · rw [Token.isSkippable_eq_false]
          · exact Bool.false_ne_true
          · show wordClass text ∉ _
            rcases hcls with hcls | hcls <;> rw [hcls] <;> decide
      rw [← hitem]
      apply hother
      show wordClass text ≠ .symbol
      rcases hcls with hcls | hcls <;> rw [hcls] <;> decide
  | sign text =>
      exact Item.ofTokens_cons_of_openingQuote? (openingQuote?_sign h cursor) rest
  | literal text => exact if_pos (isLiteral_place (quoteOf_mem text) _ _ _ _)
  | blank => exact hother ⟨.space, [' '], false⟩ (by simp) rest
  | lineEnd => exact hother ⟨.line, ['\n'], true⟩ (by simp) rest

/-- The tokens of pieces make up their items. -/
theorem ofTokens_place {pieces : List Piece} (h : ∀ piece ∈ pieces, piece.Sound) (cursor : Cursor)
    (rest : List Token) :
    Item.ofTokens (cursor.place (pieces.flatMap lexemes) ++ rest) =
      allItems cursor pieces ++ Item.ofTokens rest := by
  induction pieces generalizing cursor with
  | nil => rfl
  | cons piece more ih =>
      rw [List.flatMap_cons, Cursor.place_append, List.append_assoc,
        ofTokens_place_append (h piece List.mem_cons_self),
        ih fun piece hmem => h piece (List.mem_cons_of_mem _ hmem), allItems, List.append_assoc]

end Piece

end TokenGrammar
