/-
  TokenGrammar.Span

  Places in a source text.
-/

namespace TokenGrammar

/-- A piece of a source text, from the byte offset `start` up to the byte
    offset `stop`, which is not part of it. -/
structure Span where
  start : Nat
  stop : Nat
  deriving DecidableEq, Repr, Inhabited

namespace Span

/-- The empty piece at the beginning of a text. -/
def zero : Span := ⟨0, 0⟩

/-- From the beginning of one piece to the end of another. -/
def through (first last : Span) : Span := ⟨first.start, last.stop⟩

end Span

end TokenGrammar
