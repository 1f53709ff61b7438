/-
  TokenGrammar.Proofs.Grammar.SourceLines

  What a line feed and more text behind a source do to its lexemes: nothing, except that a
  carriage return at the end of the source, if it is a lexeme by itself, becomes part of
  the line end (`JoinsOn`).  A backslash at the end of a source is the other seam that a
  text can end with, but as a symbol it stands in no grammar.

  Main statement: `Grammar.lexemes_append_lineFeed`.
-/

import TokenGrammar.Proofs.Grammar.SourceLexer
import TokenGrammar.Proofs.Lexer.Seams

namespace TokenGrammar

-- ============================================================================
-- Seams
-- ============================================================================

/-- The lexemes of a source, those of them that stay as they are in front of a line feed,
    and the line end behind those. -/
inductive JoinsOn : List Lexeme → List Lexeme → Lexeme → Prop where
  | lineFeed (lexemes : List Lexeme) : JoinsOn lexemes lexemes ⟨.line, ['\n'], true⟩
  | returnFeed (lexemes : List Lexeme) :
      JoinsOn (lexemes ++ [⟨.space, ['\r'], false⟩]) lexemes ⟨.line, ['\r', '\n'], true⟩

theorem JoinsOn.endsLine_eq {lexemes kept : List Lexeme} {line : Lexeme}
    (h : JoinsOn lexemes kept line) : line.endsLine = true := by
  cases h <;> rfl

theorem JoinsOn.cls_eq {lexemes kept : List Lexeme} {line : Lexeme}
    (h : JoinsOn lexemes kept line) : line.cls = .line := by
  cases h <;> rfl

theorem JoinsOn.exists_append {lexemes kept : List Lexeme} {line : Lexeme}
    (h : JoinsOn lexemes kept line) : ∃ more, lexemes = kept ++ more := by
  cases h with
  | lineFeed => exact ⟨[], (List.append_nil _).symm⟩
  | returnFeed => exact ⟨_, rfl⟩

namespace Grammar

theorem holdsNoFeed_sourceLexer : sourceLexer.HoldsNoFeed := by
  decide +kernel

/-- At the end of a source a backslash is a symbol. -/
theorem backslash_mem_lexemes {rest : List Char} (h : rest = [] ∨ rest = ['\r']) :
    ⟨.symbol, ['\\'], false⟩ ∈ sourceLexer.lexemes ('\\' :: rest) := by
  rw [Lexer.lexemes_cons]
  apply List.mem_append_left
  rcases h with rfl | rfl
  · exact List.mem_cons_self
  · exact List.mem_cons_self

/-- The lexemes of a text in which a backslash is no symbol, in front of a line feed and
    more text: they are those of both texts, with a line end between them. -/
theorem lexemes_append_lineFeed (text : List Char)
    (hbackslash : ⟨.symbol, ['\\'], false⟩ ∉ sourceLexer.lexemes text) :
    ∃ kept line, JoinsOn (sourceLexer.lexemes text) kept line ∧ ∀ more,
      sourceLexer.lexemes (text ++ '\n' :: more) = kept ++ line :: sourceLexer.lexemes more := by
  obtain ⟨front, tail, htail, hleaves⟩ := Lexer.exists_seam holdsNoFeed_sourceLexer text
  have hfree : ⟨.symbol, ['\\'], false⟩ ∉ sourceLexer.lexemes tail := by
    rw [hleaves.lexemes_eq] at hbackslash
    exact fun hmem => hbackslash (List.mem_append_right _ hmem)
  simp only [hleaves.lexemes_eq, hleaves.lexemes_feed_eq]
  simp only [seams, List.mem_cons, List.not_mem_nil, or_false] at htail
  rcases htail with rfl | rfl | rfl | rfl
  · rw [Lexer.lexemes_nil, List.append_nil]
    exact ⟨front, _, .lineFeed front, fun more => congrArg _ (sourceLexer.lexemes_lineFeed more)⟩
  · have hblank : sourceLexer.lexemes ['\r'] = [⟨.space, ['\r'], false⟩] := by
      rw [Lexer.lexemes_cons]
      exact congrArg _ sourceLexer.lexemes_nil
    rw [hblank]
    exact ⟨front, _, .returnFeed front, fun more => congrArg _ (sourceLexer.lexemes_returnFeed more)⟩
  · exact absurd (backslash_mem_lexemes (.inl rfl)) hfree
  · exact absurd (backslash_mem_lexemes (.inr rfl)) hfree

end Grammar

end TokenGrammar
