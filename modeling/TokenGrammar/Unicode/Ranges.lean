/-
  TokenGrammar.Unicode.Ranges

  Sets of characters written as ascending ranges of code points, the form in
  which the Unicode character database lists its properties.
-/

namespace TokenGrammar.Unicode

/-- A set of code points: closed ranges `(first, last)`, in ascending order
    and without overlap. -/
abbrev Ranges := List (Nat × Nat)

namespace Ranges

/-- Whether a code point lies in one of the ranges.  The search stops at the
    first range that begins beyond the code point. -/
def covers : Ranges → Nat → Bool
  | [], _ => false
  | (first, last) :: rest, n =>
    if n < first then false
    else if n ≤ last then true
    else covers rest n

end Ranges

end TokenGrammar.Unicode
