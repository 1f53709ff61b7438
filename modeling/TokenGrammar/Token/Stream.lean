/-
  TokenGrammar.Token.Stream

  The tokens of a text.  Positions count tokens of every class: position zero
  is the mark at the beginning of the text, and the mark at its end takes the
  position behind all other tokens.
-/
import TokenGrammar.Token.Basic

namespace TokenGrammar

/-- The tokens of a text in order, and the mark at its end. -/
structure TokenStream where
  tokens : Array Token
  ending : Token
  deriving DecidableEq, Repr

namespace TokenStream

/-- All tokens, the mark at the end included. -/
def toList (stream : TokenStream) : List Token := stream.tokens.toList ++ [stream.ending]

/-- How many tokens there are, the mark at the end included. -/
def size (stream : TokenStream) : Nat := stream.tokens.size + 1

/-- The position of the mark at the end. -/
def last (stream : TokenStream) : Nat := stream.tokens.size

/-- The token at a position, if it does not lie behind the end. -/
def get? (stream : TokenStream) (position : Nat) : Option Token :=
  if position = stream.last then some stream.ending else stream.tokens[position]?

/-- The token at a position, or the mark at the end for a position behind it. -/
def get (stream : TokenStream) (position : Nat) : Token :=
  stream.tokens[position]?.getD stream.ending

/-- How many tokens lie between a position and the mark at the end. -/
def remaining (stream : TokenStream) (position : Nat) : Nat := stream.last - position

/-- The tokens that carry the meaning of the text: neither marks, nor space,
    comments or line ends. -/
def significant (stream : TokenStream) : List Token :=
  stream.toList.filter fun token => !token.isSkippable true && token.cls != .ending

/-! ## Positions and tokens -/

theorem length_toList (stream : TokenStream) : stream.toList.length = stream.size := by
  simp [toList, size]

theorem get_of_last_le {stream : TokenStream} {position : Nat} (h : stream.last ≤ position) :
    stream.get position = stream.ending := by
  unfold get
  rw [Array.getElem?_eq_none h, Option.getD_none]

theorem get?_eq_getElem?_toList (stream : TokenStream) (position : Nat) :
    stream.get? position = stream.toList[position]? := by
  unfold get? toList last
  split
  · next h => subst h; simp
  · next h =>
    rcases Nat.lt_or_ge position stream.tokens.size with hlt | hge
    · rw [List.getElem?_append_left (by simpa using hlt), Array.getElem?_toList]
    · rw [Array.getElem?_eq_none hge]
      have : stream.tokens.size < position := by omega
      symm
      apply List.getElem?_eq_none
      simp only [List.length_append, Array.length_toList, List.length_singleton]
      omega

end TokenStream

end TokenGrammar
