/-
  TokenGrammar.Match.Number

  Integers and numbers.  A lexer knows nothing about numbers, so that
  `0x1A.2p+3` comes as the five tokens `0x1A`, `.`, `2p`, `+` and `3`.  A number
  is put together from tokens with nothing in between:

    * an integer part, which is required, and where `0x` or `0X` makes the
      number hexadecimal;
    * perhaps a point and a fraction;
    * perhaps an exponent, marked by `e` or `E` in a decimal number and by `p`
      or `P` in a hexadecimal one, of decimal digits that may have a sign.  A
      hexadecimal number with a fraction must have an exponent.
-/
import TokenGrammar.Match.Failure
import TokenGrammar.Token.Reader

namespace TokenGrammar

-- ============================================================================
-- The next token of a terminal
-- ============================================================================

/-- A token that has been read: its position, the token, and the reader behind
    it. -/
structure ReadToken where
  position : Nat
  token : Token
  after : Reader

/-- Read the first token of a terminal: the next significant token, or the very
    next one if the terminal is to be adjacent to what comes before it.  Nothing
    can be adjacent to the mark at the beginning, so that one is passed over. -/
def Reader.next (reader : Reader) (adjacent : Bool) : ReadToken :=
  if adjacent then
    let start := if reader.peekAdjacent.cls == .beginning then reader.consume else reader
    ⟨start.position, start.peekAdjacent, start.consume⟩
  else
    let (token, after) := reader.read
    ⟨reader.significantPosition, token, after⟩

@[simp] theorem Reader.stream_next (reader : Reader) (adjacent : Bool) :
    (reader.next adjacent).after.stream = reader.stream := by
  unfold Reader.next
  split
  · dsimp only
    split <;> simp
  · simp

-- ============================================================================
-- Digits
-- ============================================================================

/-- Whether a character is a hexadecimal digit. -/
def isHexDigit (c : Char) : Bool :=
  c.isDigit || (decide ('a' ≤ c) && decide (c ≤ 'f')) || (decide ('A' ≤ c) && decide (c ≤ 'F'))

namespace NumberBase

/-- Whether a character is a digit of a base. -/
def isDigit : NumberBase → Char → Bool
  | .decimal, c => c.isDigit
  | .hex, c => isHexDigit c

/-- Whether a character marks the exponent of a number of a base. -/
def isExponentMarker : NumberBase → Char → Bool
  | .decimal, c => c == 'e' || c == 'E'
  | .hex, c => c == 'p' || c == 'P'

end NumberBase

/-- The base of a number that begins with a word, and the digits of its integer
    part with whatever follows them in the word. -/
def splitBase : List Char → NumberBase × List Char
  | '0' :: 'x' :: digits => (.hex, digits)
  | '0' :: 'X' :: digits => (.hex, digits)
  | word => (.decimal, word)

/-- Whether some characters are decimal digits, and at least one. -/
def isDecimal (cs : List Char) : Bool := !cs.isEmpty && cs.all Char.isDigit

/-- Whether a token is an integer: a word of digits of one base. -/
def isInteger (token : Token) : Bool :=
  let (base, digits) := splitBase token.text.toList
  token.cls == .identifier && !digits.isEmpty && digits.all base.isDigit

/-- Read digits up to an exponent marker, and answer with what follows the
    marker if there is one.  There must be at least one digit; `seen` says
    whether there was one already. -/
def readDigits (base : NumberBase) (part : NumberPart) (seen : Bool) :
    List Char → Except Mismatch (Option (List Char))
  | [] => if seen then .ok none else .error (.noDigits part base)
  | c :: rest =>
    if base.isExponentMarker c then
      if seen then .ok (some rest) else .error (.noDigits part base)
    else if base.isDigit c then readDigits base part true rest
    else .error (.invalidDigit c part base)

-- ============================================================================
-- Numbers
-- ============================================================================

/-- A number of which some tokens have been read: its text, the offset behind
    it, and the reader behind it. -/
structure PartialNumber where
  text : String
  stop : Nat
  reader : Reader

namespace PartialNumber

/-- The token that comes next. -/
def next (number : PartialNumber) : Token := number.reader.peekAdjacent

/-- The number with the token that comes next. -/
def take (number : PartialNumber) : PartialNumber :=
  ⟨number.text ++ number.next.text, number.next.span.stop, number.reader.consume⟩

/-- The number, if no point follows it. -/
def withoutPoint (number : PartialNumber) (mismatch : Mismatch) :
    Except Miss PartialNumber :=
  if number.next.isSymbol "." then .error ⟨number.reader.position, mismatch⟩ else .ok number

/-- The number with its sign, if one comes next. -/
def takeSign (number : PartialNumber) : PartialNumber :=
  if number.next.isSymbol "+" || number.next.isSymbol "-" then number.take else number

/-- Read the rest of an exponent.  `rest` follows the marker in the token at
    `position`; if nothing does, the digits are a token of their own, and a sign
    may stand before it. -/
def readExponent (number : PartialNumber) (position : Nat) (rest : List Char) :
    Except Miss PartialNumber :=
  if rest.isEmpty then
    let signed := number.takeSign
    let digits := signed.next
    if digits.cls == .identifier && isDecimal digits.text.toList then
      signed.take.withoutPoint .pointAfterExponent
    else .error ⟨signed.reader.position, .expected .exponentDigits digits⟩
  else if isDecimal rest then number.withoutPoint .pointAfterExponent
  else .error ⟨position, .invalidExponent (String.ofList rest)⟩

/-- Read a fraction behind the point, and the exponent. -/
def readFraction (number : PartialNumber) (base : NumberBase) : Except Miss PartialNumber :=
  let position := number.reader.position
  let fraction := number.next
  if fraction.cls == .identifier then
    match readDigits base .fraction false fraction.text.toList with
    | .error mismatch => .error ⟨position, mismatch⟩
    | .ok (some rest) => number.take.readExponent position rest
    | .ok none =>
      match base with
      | .hex => .error ⟨position, .missingHexExponent⟩
      | .decimal => number.take.withoutPoint .secondPoint
  else .error ⟨position, .expected .fractionDigits fraction⟩

/-- Read what follows the first token of a number, which is at `position`. -/
def readRest (number : PartialNumber) (position : Nat) : Except Miss PartialNumber :=
  let (base, digits) := splitBase number.text.toList
  match readDigits base .integer false digits with
  | .error mismatch => .error ⟨position, mismatch⟩
  | .ok (some rest) => number.readExponent position rest
  | .ok none => if number.next.isSymbol "." then number.take.readFraction base else .ok number

end PartialNumber

/-- Match a number.  It begins with a word that begins with a digit. -/
def matchNumber (adjacent : Bool) (reader : Reader) : Except Miss (Matched × Reader) :=
  let first := reader.next adjacent
  let token := first.token
  if token.cls == .identifier && token.text.toList.head?.any Char.isDigit then
    let start : PartialNumber := ⟨token.text, token.span.stop, first.after⟩
    match start.readRest first.position with
    | .error miss => .error miss
    | .ok number =>
      .ok (⟨.number, number.text, ⟨token.span.start, number.stop⟩, first.position⟩,
        number.reader)
  else .error ⟨first.position, .expected (.terminal (.ofCategory .number)) token⟩

/-! ## The stream stays the same -/

namespace PartialNumber

@[simp] theorem stream_take (number : PartialNumber) :
    number.take.reader.stream = number.reader.stream := by simp [take]

@[simp] theorem stream_takeSign (number : PartialNumber) :
    number.takeSign.reader.stream = number.reader.stream := by
  unfold takeSign
  split <;> simp

theorem stream_of_withoutPoint {number result : PartialNumber} {mismatch : Mismatch}
    (h : number.withoutPoint mismatch = .ok result) :
    result.reader.stream = number.reader.stream := by
  unfold withoutPoint at h
  split at h <;> cases h
  rfl

theorem stream_of_readExponent {number result : PartialNumber} {position : Nat}
    {rest : List Char} (h : number.readExponent position rest = .ok result) :
    result.reader.stream = number.reader.stream := by
  unfold readExponent at h
  dsimp only at h
  split at h
  · split at h
    · simpa using stream_of_withoutPoint h
    · cases h
  · split at h
    · exact stream_of_withoutPoint h
    · cases h

theorem stream_of_readFraction {number result : PartialNumber} {base : NumberBase}
    (h : number.readFraction base = .ok result) :
    result.reader.stream = number.reader.stream := by
  unfold readFraction at h
  dsimp only at h
  split at h
  · split at h
    · cases h
    · simpa using stream_of_readExponent h
    · split at h
      · cases h
      · simpa using stream_of_withoutPoint h
  · cases h

theorem stream_of_readRest {number result : PartialNumber} {position : Nat}
    (h : number.readRest position = .ok result) :
    result.reader.stream = number.reader.stream := by
  unfold readRest at h
  dsimp only at h
  split at h
  · cases h
  · exact stream_of_readExponent h
  · split at h
    · simpa using stream_of_readFraction h
    · cases h
      rfl

end PartialNumber

theorem stream_of_matchNumber {adjacent : Bool} {reader behind : Reader} {matched : Matched}
    (h : matchNumber adjacent reader = .ok (matched, behind)) :
    behind.stream = reader.stream := by
  unfold matchNumber at h
  dsimp only at h
  split at h
  · split at h
    · cases h
    · next hrest =>
      cases h
      simpa using PartialNumber.stream_of_readRest hrest
  · cases h

end TokenGrammar
