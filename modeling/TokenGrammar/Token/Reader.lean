/-
  TokenGrammar.Token.Reader

  A reader stands at a position of a token stream.  It reads either the next
  significant token, stepping over those that do not matter to it, or the very
  next token, whatever that is.  A checkpoint remembers where a reader stood.
-/
import TokenGrammar.Token.Stream

namespace TokenGrammar

/-- Where a reader stood, and whether it stepped over line ends. -/
structure Checkpoint where
  position : Nat
  skipLines : Bool
  deriving DecidableEq, Repr, Inhabited

/-- A place in a token stream, and whether line ends may be stepped over. -/
structure Reader where
  stream : TokenStream
  position : Nat
  skipLines : Bool
  deriving DecidableEq, Repr

namespace TokenStream

/-- A reader at the beginning of the stream, which steps over line ends. -/
def reader (stream : TokenStream) : Reader := ⟨stream, 0, true⟩

/-- The first position from `position` on whose token may not be stepped over,
    where at most `steps` tokens are looked at. -/
def seekSignificant (stream : TokenStream) (skipLines : Bool) : Nat → Nat → Nat
  | 0, position => position
  | steps + 1, position =>
    if (stream.get position).isSkippable skipLines then
      seekSignificant stream skipLines steps (position + 1)
    else position

end TokenStream

namespace Reader

/-- How many tokens lie between the reader and the mark at the end. -/
def remaining (reader : Reader) : Nat := reader.stream.remaining reader.position

/-- The position of the next token that may not be stepped over.  The mark at
    the end never is. -/
def significantPosition (reader : Reader) : Nat :=
  reader.stream.seekSignificant reader.skipLines reader.remaining reader.position

/-- The next significant token. -/
def peek (reader : Reader) : Token := reader.stream.get reader.significantPosition

/-- The very next token. -/
def peekAdjacent (reader : Reader) : Token := reader.stream.get reader.position

/-- The reader at another position. -/
def moveTo (reader : Reader) (position : Nat) : Reader := { reader with position }

/-- Step over the very next token, unless it is the mark at the end. -/
def consume (reader : Reader) : Reader :=
  if reader.position < reader.stream.last then reader.moveTo (reader.position + 1) else reader

/-- Read the next significant token and step over it.  At the end of the stream
    this gives the mark there and stays on it. -/
def read (reader : Reader) : Token × Reader :=
  (reader.peek, (reader.moveTo reader.significantPosition).consume)

/-- Read the very next token and step over it. -/
def readAdjacent (reader : Reader) : Token × Reader := (reader.peekAdjacent, reader.consume)

/-- Whether no significant token is left. -/
def atEnd (reader : Reader) : Bool := reader.stream.last ≤ reader.significantPosition

/-- Remember where the reader stands. -/
def checkpoint (reader : Reader) : Checkpoint := ⟨reader.position, reader.skipLines⟩

/-- Go back to where a reader stood. -/
def seek (reader : Reader) (checkpoint : Checkpoint) : Reader :=
  { reader with position := checkpoint.position, skipLines := checkpoint.skipLines }

/-- The same place, with another opinion on line ends. -/
def withSkipLines (reader : Reader) (skipLines : Bool) : Reader := { reader with skipLines }

/-! ## Going back -/

@[simp] theorem stream_consume (reader : Reader) : reader.consume.stream = reader.stream := by
  unfold consume
  split <;> rfl

@[simp] theorem stream_read (reader : Reader) : reader.read.2.stream = reader.stream := by
  simp [read, moveTo]

@[simp] theorem seek_checkpoint (reader : Reader) : reader.seek reader.checkpoint = reader := rfl

@[simp] theorem checkpoint_seek (reader : Reader) (checkpoint : Checkpoint) :
    (reader.seek checkpoint).checkpoint = checkpoint := rfl

end Reader

end TokenGrammar
