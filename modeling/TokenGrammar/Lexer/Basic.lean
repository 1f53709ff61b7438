/-
  TokenGrammar.Lexer.Basic

  What a lexer has to be told about a language: its symbols and keywords, the
  characters that quote strings, and what begins a comment.  Symbols and
  keywords are held longest first, so that the first of them that stands at a
  place is the longest that does.
-/
import TokenGrammar.Sorted

namespace TokenGrammar

-- ============================================================================
-- The order of registered words
-- ============================================================================

/-- Words of more bytes come first.  Among words of as many bytes the order is
    that of their characters, which is also the order of their bytes. -/
def longerFirst (a b : String) : Bool :=
  decide (b.utf8ByteSize < a.utf8ByteSize) ||
    (a.utf8ByteSize == b.utf8ByteSize && decide (a < b))

/-- The non-empty words of a list, longest first and each once.  An empty word
    stands everywhere, so it would never let a lexer advance. -/
def sortLongestFirst (words : List String) : List String :=
  sorted longerFirst (words.filter (!·.isEmpty))

theorem separates_longerFirst : Separates longerFirst := by
  intro a b hab hba
  simp only [longerFirst, Bool.or_eq_false_iff, decide_eq_false_iff_not, Nat.not_lt,
    Bool.and_eq_false_iff, beq_eq_false_iff_ne] at hab hba
  have size : a.utf8ByteSize = b.utf8ByteSize := Nat.le_antisymm hab.1 hba.1
  have notAB : ¬ a < b := hab.2.resolve_left fun h => h size
  have notBA : ¬ b < a := hba.2.resolve_left fun h => h size.symm
  exact String.le_antisymm (String.not_lt.1 notBA) (String.not_lt.1 notAB)

theorem longerFirst_trans (a b c : String) (hab : longerFirst a b = true)
    (hbc : longerFirst b c = true) : longerFirst a c = true := by
  simp only [longerFirst, Bool.or_eq_true, decide_eq_true_eq, Bool.and_eq_true,
    beq_iff_eq] at hab hbc ⊢
  rcases hab with hab | ⟨sizeAB, hab⟩ <;> rcases hbc with hbc | ⟨sizeBC, hbc⟩
  · exact .inl (Nat.lt_trans hbc hab)
  · exact .inl (by omega)
  · exact .inl (by omega)
  · exact .inr ⟨by omega, String.lt_trans hab hbc⟩

/-- Sorting keeps exactly the non-empty words. -/
theorem mem_sortLongestFirst {word : String} {words : List String} :
    word ∈ sortLongestFirst words ↔ word ∈ words ∧ word.isEmpty = false := by
  simp [sortLongestFirst, mem_sorted separates_longerFirst]

/-- Sorted words stand in the order. -/
theorem pairwise_sortLongestFirst (words : List String) :
    (sortLongestFirst words).Pairwise (longerFirst · · = true) :=
  pairwise_sorted separates_longerFirst longerFirst_trans _

-- ============================================================================
-- Lexers
-- ============================================================================

/-- The characters that quote a string, unless a lexer is told otherwise. -/
def defaultQuotes : List Char := ['"', '\'', '`']

/-- How to split the texts of a language into tokens. -/
structure Lexer where
  symbols : List String
  keywords : List String
  quotes : List Char
  lineComment : Option String
  deriving DecidableEq, Repr

namespace Lexer

/-- A lexer that knows no symbols, keywords or comments. -/
def base : Lexer := ⟨[], [], defaultQuotes, none⟩

/-- Register more symbols. -/
def withSymbols (lexer : Lexer) (words : List String) : Lexer :=
  { lexer with symbols := sortLongestFirst (lexer.symbols ++ words) }

/-- Register more keywords. -/
def withKeywords (lexer : Lexer) (words : List String) : Lexer :=
  { lexer with keywords := sortLongestFirst (lexer.keywords ++ words) }

/-- Replace the characters that quote strings. -/
def withQuotes (lexer : Lexer) (quotes : List Char) : Lexer := { lexer with quotes }

/-- Replace what begins a comment that runs to the end of its line.  An empty
    text means that there are no comments. -/
def withLineComment (lexer : Lexer) (opening : String) : Lexer :=
  { lexer with lineComment := if opening.isEmpty then none else some opening }

end Lexer

end TokenGrammar
