/-
  TokenGrammar.Proofs.Match.Requests

  What a reader can be asked for, and where that takes it.  Some requests look ahead or read,
  one steps over a token unseen, one changes the opinion on line ends; besides, a reader can
  be sent back to where a reader of its stream stood (`Reader.Becomes`).

  Carried out token by token, requests are guarded against the end of the stream in three
  ways: looking for what matters and stepping over a token stop at the last one, reading
  stops at a mark of the end, and a position behind the last token stands for that token.
  In a stream whose last token is its only mark of the end, the three come to the same, and
  no look-up is ever in vain (`Reader.askGuarded_eq`).

  Main statement: `Reader.readers_stop_at_what_matters`.
-/

import Mathlib.Order.Bounds.Defs
import TokenGrammar.Proofs.Match.Ahead

namespace TokenGrammar

-- ============================================================================
-- Tokens and their positions
-- ============================================================================

namespace TokenStream

/-- The token at a position, or the last one for a position behind it.  Both are looked
    for, and neither needs to be there. -/
def lookUp (stream : TokenStream) (position : Nat) : Option Token :=
  stream.toList[position]?.or stream.toList[stream.size - 1]?

/-- The tokens from a position on that a reader does not step over, with their positions. -/
def significantFrom (stream : TokenStream) (skipLines : Bool) (position : Nat) :
    List (Token × Nat) :=
  (stream.toList.zipIdx.drop position).filter fun entry => !entry.1.isSkippable skipLines

variable {stream : TokenStream} {skipLines : Bool} {position : Nat}

theorem lt_length_toList_iff : position < stream.toList.length ↔ position ≤ stream.last := by
  rw [length_toList]
  exact Nat.lt_succ_iff

theorem getElem?_toList (h : position ≤ stream.last) :
    stream.toList[position]? = some (stream.get position) := by
  have hlength := lt_length_toList_iff.2 h
  rw [List.getElem?_eq_getElem hlength, get_eq_getElem_toList hlength]

theorem getElem?_toList_last (stream : TokenStream) :
    stream.toList[stream.size - 1]? = some stream.ending := by
  rw [show stream.size - 1 = stream.last from rfl, getElem?_toList (Nat.le_refl _),
    get_of_last_le (Nat.le_refl _)]

/-- A token is found for every position. -/
theorem lookUp_eq (stream : TokenStream) (position : Nat) :
    stream.lookUp position = some (stream.get position) := by
  rw [lookUp]
  rcases Nat.lt_or_ge stream.last position with hlt | hle
  · have hnone : stream.toList[position]? = none := by
      apply List.getElem?_eq_none
      rw [length_toList]
      exact hlt
    rw [hnone, Option.none_or, getElem?_toList_last, get_of_last_le (Nat.le_of_lt hlt)]
  · rw [getElem?_toList hle, Option.some_or]

theorem drop_zipIdx (h : position ≤ stream.last) :
    stream.toList.zipIdx.drop position =
      (stream.get position, position) :: stream.toList.zipIdx.drop (position + 1) := by
  have hlength := lt_length_toList_iff.2 h
  rw [List.drop_eq_getElem_cons (by rwa [List.length_zipIdx]), List.getElem_zipIdx,
    get_eq_getElem_toList hlength, Nat.zero_add]

theorem significantFrom_of_isSkippable (hle : position ≤ stream.last)
    (h : (stream.get position).isSkippable skipLines = true) :
    stream.significantFrom skipLines position =
      stream.significantFrom skipLines (position + 1) := by
  rw [significantFrom, drop_zipIdx hle, List.filter_cons_of_neg (by simp [h]), significantFrom]

theorem significantFrom_of_not_isSkippable (hle : position ≤ stream.last)
    (h : (stream.get position).isSkippable skipLines = false) :
    stream.significantFrom skipLines position =
      (stream.get position, position) :: stream.significantFrom skipLines (position + 1) := by
  rw [significantFrom, drop_zipIdx hle, List.filter_cons_of_pos (by simp [h]), significantFrom]

theorem significantFrom_of_last_lt (h : stream.last < position) :
    stream.significantFrom skipLines position = [] := by
  have hlength : stream.toList.zipIdx.length ≤ position := by
    rw [List.length_zipIdx, length_toList]
    exact h
  rw [significantFrom, List.drop_eq_nil_of_le hlength, List.filter_nil]

theorem Marked.isSkippable_ending (h : stream.Marked) (skipLines : Bool) :
    stream.ending.isSkippable skipLines = false := by
  rw [Token.isSkippable, h.ending]

/-- The only position at which a reader can find the mark is the last, or behind it. -/
theorem Marked.cls_get_eq_ending_iff (h : stream.Marked) :
    (stream.get position).cls = .ending ↔ stream.last ≤ position := by
  constructor
  · intro hcls
    by_contra hlt
    rw [get_eq_getElem (Nat.lt_of_not_le hlt)] at hcls
    exact h.cls_ne _ (List.getElem_mem _) hcls
  · intro hle
    rw [get_of_last_le hle, h.ending]

/-- All that is left at the end is the mark. -/
theorem Marked.significantFrom_last (h : stream.Marked) :
    stream.significantFrom skipLines stream.last = [(stream.ending, stream.last)] := by
  have hget : stream.get stream.last = stream.ending := get_of_last_le (Nat.le_refl _)
  rw [significantFrom_of_not_isSkippable (Nat.le_refl _) (by rw [hget, h.isSkippable_ending]),
    significantFrom_of_last_lt (Nat.lt_succ_self _), hget]

end TokenStream

-- ============================================================================
-- The next token that matters
-- ============================================================================

namespace Reader

variable {reader : Reader}

theorem isSkippable_peek (h : reader.stream.Marked) (hle : reader.position ≤ reader.stream.last) :
    reader.peek.isSkippable reader.skipLines = false := by
  rcases Nat.lt_or_eq_of_le (significantPosition_le_last hle) with hlt | heq
  · apply reader.stream.isSkippable_seekSignificant
    show reader.significantPosition < _
    rw [remaining, TokenStream.remaining]
    omega
  · rw [peek, heq, TokenStream.get_of_last_le (Nat.le_refl _), h.isSkippable_ending]

theorem isLeast_significantPosition (h : reader.stream.Marked)
    (hle : reader.position ≤ reader.stream.last) :
    IsLeast {position | reader.position ≤ position ∧ ∃ token,
        reader.stream.toList[position]? = some token ∧
        token.isSkippable reader.skipLines = false}
      reader.significantPosition := by
  have hskips := reader.skips_significantPosition
  refine ⟨⟨hskips.le, reader.peek,
    TokenStream.getElem?_toList (significantPosition_le_last hle), isSkippable_peek h hle⟩, ?_⟩
  rintro position ⟨hfrom, token, htoken, hmatters⟩
  by_contra hlt
  have hpassed := hskips.isSkippable position hfrom (Nat.lt_of_not_le hlt)
  have hlast : position ≤ reader.stream.last := by
    have := significantPosition_le_last hle
    omega
  rw [TokenStream.getElem?_toList hlast, Option.some.injEq] at htoken
  rw [htoken, hmatters] at hpassed
  cases hpassed

theorem significantFrom_eq_of_skips {further : Nat} (h : reader.Skips further)
    (hlast : further ≤ reader.stream.last) :
    reader.stream.significantFrom reader.skipLines reader.position =
      reader.stream.significantFrom reader.skipLines further := by
  obtain ⟨hle, hskip⟩ := h
  induction hle with
  | refl => rfl
  | @step between hle ih =>
      rw [ih (Nat.le_of_succ_le hlast) fun passed hfrom hto => hskip passed hfrom (by omega)]
      exact TokenStream.significantFrom_of_isSkippable (Nat.le_of_succ_le hlast)
        (hskip between hle (Nat.lt_succ_self _))

/-- What matters from a reader on begins with the token that it reads next. -/
theorem significantFrom_eq_cons (h : reader.stream.Marked)
    (hle : reader.position ≤ reader.stream.last) :
    reader.stream.significantFrom reader.skipLines reader.position =
      (reader.peek, reader.significantPosition) ::
        reader.stream.significantFrom reader.skipLines (reader.significantPosition + 1) := by
  have hlast := significantPosition_le_last hle
  rw [significantFrom_eq_of_skips reader.skips_significantPosition hlast]
  exact TokenStream.significantFrom_of_not_isSkippable hlast (isSkippable_peek h hle)

/-- Reading goes on unless what it finds is the mark. -/
theorem read_eq (h : reader.stream.Marked) :
    reader.read = (reader.peek, reader.moveTo (if reader.peek.cls = .ending then
      reader.significantPosition else reader.significantPosition + 1)) := by
  have hcls : reader.peek.cls = .ending ↔ reader.stream.last ≤ reader.significantPosition :=
    h.cls_get_eq_ending_iff
  refine Prod.ext rfl ?_
  rw [read_snd]
  by_cases hlt : reader.significantPosition < reader.stream.last
  · rw [if_pos hlt, if_neg (mt hcls.1 (Nat.not_le.2 hlt))]
  · rw [if_neg hlt, if_pos (hcls.2 (Nat.le_of_not_lt hlt))]

-- ============================================================================
-- Reading again and again
-- ============================================================================

/-- The tokens that so many readings find, each with its position. -/
def visits : Nat → Reader → List (Token × Nat)
  | 0, _ => []
  | count + 1, reader =>
      (reader.read.1, reader.significantPosition) :: visits count reader.read.2

/-- Readings find what matters from the reader on, and the mark at the end once there is
    nothing left. -/
theorem visits_eq (h : reader.stream.Marked) (hle : reader.position ≤ reader.stream.last)
    (count : Nat) :
    reader.visits count =
      (reader.stream.significantFrom reader.skipLines reader.position).takeD count
        (reader.stream.ending, reader.stream.last) := by
  induction count generalizing reader with
  | zero => rfl
  | succ count ih =>
      have hmoved := read_snd reader
      rw [visits, significantFrom_eq_cons h hle, List.takeD_succ]
      refine congrArg (_ :: ·) ?_
      rw [List.tail_cons]
      rcases Nat.lt_or_eq_of_le (significantPosition_le_last hle) with hlt | heq
      · rw [if_pos hlt] at hmoved
        rw [hmoved]
        exact @ih (reader.moveTo (reader.significantPosition + 1)) h hlt
      · rw [heq, if_neg (Nat.lt_irrefl _)] at hmoved
        have hrest : visits count (reader.moveTo reader.stream.last) =
            (reader.stream.significantFrom reader.skipLines reader.stream.last).takeD count
              (reader.stream.ending, reader.stream.last) :=
          @ih (reader.moveTo reader.stream.last) h (Nat.le_refl _)
        -- The mark is left for the next reading, or made up for if nothing is left.
        rw [hmoved, hrest, heq, h.significantFrom_last,
          TokenStream.significantFrom_of_last_lt (Nat.lt_succ_self _)]
        cases count with
        | zero => rfl
        | succ count => rfl

-- ============================================================================
-- Requests
-- ============================================================================

/-- What a reader can be asked for, apart from going back. -/
inductive Request where
  | read
  | peek
  | readAdjacent
  | peekAdjacent
  | consume
  | setSkipLines (skipLines : Bool)
  deriving DecidableEq, Repr

/-- Whether a request is answered with a token. -/
def Request.reads : Request → Bool
  | .read | .peek | .readAdjacent | .peekAdjacent => true
  | .consume | .setSkipLines _ => false

/-- The answer to a request, if it has one, and the reader behind it. -/
def ask (reader : Reader) : Request → Option Token × Reader
  | .read => (some reader.read.1, reader.read.2)
  | .peek => (some reader.peek, reader)
  | .readAdjacent => (some reader.readAdjacent.1, reader.readAdjacent.2)
  | .peekAdjacent => (some reader.peekAdjacent, reader)
  | .consume => (none, reader.consume)
  | .setSkipLines skipLines => (none, reader.withSkipLines skipLines)

/-- The first position from `position` on, but none behind the last token, whose token may
    not be stepped over.  Each token is looked up. -/
def seekGuarded (reader : Reader) (position : Nat) : Option Nat :=
  if position + 1 < reader.stream.size then do
    let token ← reader.stream.lookUp position
    if token.isSkippable reader.skipLines then reader.seekGuarded (position + 1)
    else some position
  else some position
  termination_by reader.stream.size - position

/-- Step over the very next token, unless it is the last one. -/
def consumeGuarded (reader : Reader) : Reader :=
  if reader.position + 1 < reader.stream.size then reader.moveTo (reader.position + 1)
  else reader

/-- A request carried out token by token: none if some token is not there. -/
def askGuarded (reader : Reader) : Request → Option (Option Token × Reader)
  | .read => do
      let position ← reader.seekGuarded reader.position
      let token ← reader.stream.lookUp position
      return (some token, reader.moveTo (if token.cls = .ending then position else position + 1))
  | .peek => do
      let position ← reader.seekGuarded reader.position
      let token ← reader.stream.lookUp position
      return (some token, reader)
  | .readAdjacent => do
      let token ← reader.stream.lookUp reader.position
      return (some token, reader.consumeGuarded)
  | .peekAdjacent => do
      let token ← reader.stream.lookUp reader.position
      return (some token, reader)
  | .consume => some (none, reader.consumeGuarded)
  | .setSkipLines skipLines => some (none, reader.withSkipLines skipLines)

/-- The search finds the position within the steps that it may take. -/
theorem seekGuarded_eq (reader : Reader) (position : Nat) :
    reader.seekGuarded position = some (reader.stream.seekSignificant reader.skipLines
      (reader.stream.remaining position) position) := by
  induction hsteps : reader.stream.remaining position generalizing position with
  | zero =>
      have hlast : ¬position + 1 < reader.stream.size := by
        rw [TokenStream.remaining, TokenStream.last] at hsteps
        rw [TokenStream.size]
        omega
      rw [seekGuarded, if_neg hlast, TokenStream.seekSignificant]
  | succ steps ih =>
      rw [TokenStream.remaining, TokenStream.last] at hsteps
      have hlast : position + 1 < reader.stream.size := by
        rw [TokenStream.size]
        omega
      have hrest : reader.stream.remaining (position + 1) = steps := by
        rw [TokenStream.remaining, TokenStream.last]
        omega
      rw [seekGuarded, if_pos hlast, TokenStream.lookUp_eq, TokenStream.seekSignificant]
      show (if _ then _ else _) = _
      split
      · exact ih (position + 1) hrest
      · rfl

theorem consumeGuarded_eq (reader : Reader) : reader.consumeGuarded = reader.consume := by
  unfold consumeGuarded consume
  exact if_congr Nat.add_lt_add_iff_right rfl rfl

/-- The three guards come to the same, and no request fails. -/
theorem askGuarded_eq (h : reader.stream.Marked) (request : Request) :
    reader.askGuarded request = some (reader.ask request) := by
  have hseek : reader.seekGuarded reader.position = some reader.significantPosition :=
    reader.seekGuarded_eq reader.position
  cases request with
  | read =>
      simp only [askGuarded, hseek, TokenStream.lookUp_eq, ask, read_eq h]
      rfl
  | peek =>
      simp only [askGuarded, hseek, TokenStream.lookUp_eq, ask]
      rfl
  | readAdjacent =>
      simp only [askGuarded, TokenStream.lookUp_eq, consumeGuarded_eq, ask]
      rfl
  | peekAdjacent =>
      simp only [askGuarded, TokenStream.lookUp_eq, ask]
      rfl
  | consume => simp only [askGuarded, consumeGuarded_eq, ask]
  | setSkipLines skipLines => rfl

theorem stream_ask (reader : Reader) (request : Request) :
    (reader.ask request).2.stream = reader.stream := by
  cases request with
  | read => exact reader.stream_read
  | readAdjacent | consume => exact reader.stream_consume
  | peek | peekAdjacent | setSkipLines => rfl

/-- A request takes a reader onward, if anywhere, and not behind the end of the stream. -/
theorem position_ask (reader : Reader) (request : Request) :
    reader.position ≤ (reader.ask request).2.position ∧
      (reader.ask request).2.position ≤ max reader.stream.last reader.position := by
  have hstays : reader.position ≤ max reader.stream.last reader.position := Nat.le_max_right _ _
  have hconsume := (Onward.refl reader).consume
  have hread := reader.onward_moveTo_significantPosition.consume
  cases request with
  | read => exact ⟨hread.position_le, hread.le_last⟩
  | readAdjacent | consume => exact ⟨hconsume.position_le, hconsume.le_last⟩
  | peek | peekAdjacent | setSkipLines => exact ⟨Nat.le_refl _, hstays⟩

/-- At the end of the stream and behind it, whatever is read is the mark, and the reader
    stays. -/
theorem ask_of_last_le (h : reader.stream.last ≤ reader.position) {request : Request}
    (hreads : request.reads = true) :
    reader.ask request = (some reader.stream.ending, reader) := by
  have hsignificant := significantPosition_of_last_le h
  have hadjacent : reader.peekAdjacent = reader.stream.ending := TokenStream.get_of_last_le h
  have hpeek : reader.peek = reader.stream.ending := by
    rw [peek, hsignificant]
    exact hadjacent
  have hread : reader.read.2 = reader := by
    rw [read_snd, hsignificant, if_neg (Nat.not_lt.2 h)]
    rfl
  have hconsume : reader.consume = reader := if_neg (Nat.not_lt.2 h)
  cases request with
  | read => exact Prod.ext (congrArg some hpeek) hread
  | peek => exact Prod.ext (congrArg some hpeek) rfl
  | readAdjacent => exact Prod.ext (congrArg some hadjacent) hconsume
  | peekAdjacent => exact Prod.ext (congrArg some hadjacent) rfl
  | consume | setSkipLines => cases hreads

-- ============================================================================
-- Requests in a row
-- ============================================================================

/-- What a reader can become by requests, and by going back to where it stood itself or to
    where another reader stood that it could have become. -/
inductive Becomes (start : Reader) : Reader → Prop where
  | refl : start.Becomes start
  | asked {reader : Reader} (h : start.Becomes reader) (request : Request) :
      start.Becomes (reader.ask request).2
  | sentBack {reader earlier : Reader} (h : start.Becomes reader)
      (hearlier : start.Becomes earlier) : start.Becomes (reader.seek earlier.checkpoint)

variable {start : Reader}

theorem Becomes.stream_eq (h : start.Becomes reader) : reader.stream = start.stream := by
  induction h with
  | refl => rfl
  | asked h request ih => rw [stream_ask, ih]
  | sentBack h hearlier ih ihEarlier => exact ih

/-- What single requests keep true of the position stays true. -/
theorem Becomes.position (h : start.Becomes reader) {p : Nat → Prop}
    (hstart : p start.position)
    (hask : ∀ (reader : Reader) request, reader.stream = start.stream → p reader.position →
      p (reader.ask request).2.position) : p reader.position := by
  induction h with
  | refl => exact hstart
  | asked h request ih => exact hask _ request h.stream_eq ih
  | sentBack h hearlier ih ihEarlier => exact ihEarlier

/-- A reader within its stream stays there. -/
theorem Becomes.position_le_last (h : start.Becomes reader)
    (hstart : start.position ≤ start.stream.last) : reader.position ≤ start.stream.last := by
  apply h.position (p := (· ≤ start.stream.last)) hstart
  intro between request hstream hle
  have hask := (between.position_ask request).2
  rw [hstream] at hask
  omega

/-- A reader behind its stream stays where it is. -/
theorem Becomes.position_eq (h : start.Becomes reader)
    (hstart : start.stream.last ≤ start.position) : reader.position = start.position := by
  apply h.position (p := (· = start.position)) rfl
  intro between request hstream heq
  have hask := between.position_ask request
  rw [hstream] at hask
  omega

/-- In a stream whose last token is its only mark of the end, every request is carried out,
    wherever the reader stands.

    A reader that has been asked anything, and has gone back only to where readers of its
    stream stood, stands at a token.  Its significant position is the first one from there
    on whose token it may not step over.  Reading gives that token and goes on behind it,
    but stays on the mark at the end.  Reading again and again gives all tokens that the
    reader may not step over, each once and in order, and the mark for ever after.

    A reader that has gone to where a reader of another stream stood, behind the end of its
    own, stays there whatever it is asked, and all that it reads is the mark. -/
theorem readers_stop_at_what_matters {stream : TokenStream} (h : stream.Marked) :
    (∀ reader : Reader, reader.stream = stream → ∀ request,
      reader.askGuarded request = some (reader.ask request)) ∧
    (∀ reader, stream.reader.Becomes reader →
      reader.position < stream.size ∧
      IsLeast {position | reader.position ≤ position ∧ ∃ token,
          stream.toList[position]? = some token ∧ token.isSkippable reader.skipLines = false}
        reader.significantPosition ∧
      (∃ token, stream.toList[reader.significantPosition]? = some token ∧
        reader.read = (token, reader.moveTo (if token.cls = .ending then
          reader.significantPosition else reader.significantPosition + 1))) ∧
      ∀ count, reader.visits count =
        (stream.significantFrom reader.skipLines reader.position).takeD count
          (stream.ending, stream.last)) ∧
    ∀ (reader further : Reader) (checkpoint : Checkpoint), reader.stream = stream →
      stream.size ≤ checkpoint.position → (reader.seek checkpoint).Becomes further →
      further.position = checkpoint.position ∧
      further.significantPosition = checkpoint.position ∧
      ∀ request, request.reads = true → further.ask request = (some stream.ending, further) := by
  refine ⟨?_, fun reader hreader => ?_, ?_⟩
  · rintro reader rfl request
    exact askGuarded_eq h request
  · have hstream : reader.stream = stream := hreader.stream_eq
    have hle : reader.position ≤ stream.last := hreader.position_le_last (Nat.zero_le _)
    subst hstream
    exact ⟨Nat.lt_succ_of_le hle, isLeast_significantPosition h hle,
      ⟨reader.peek, TokenStream.getElem?_toList (significantPosition_le_last hle), read_eq h⟩,
      visits_eq h hle⟩
  · rintro reader further checkpoint rfl hbehind hfurther
    have hlast : reader.stream.last ≤ checkpoint.position := Nat.le_of_succ_le hbehind
    have hstream : further.stream = reader.stream := hfurther.stream_eq
    have hposition : further.position = checkpoint.position := hfurther.position_eq hlast
    have hend : further.stream.last ≤ further.position := by
      rw [hstream, hposition]
      exact hlast
    refine ⟨hposition, ?_, fun request hreads => ?_⟩
    · rw [significantPosition_of_last_le hend, hposition]
    · rw [ask_of_last_le hend hreads, hstream]

end Reader

/-- The tokens of two words on two lines. -/
def TokenStream.twoLines : TokenStream where
  tokens := #[⟨.beginning, "", ⟨0, 0⟩, 1, 1⟩, ⟨.identifier, "a", ⟨0, 1⟩, 1, 1⟩,
    ⟨.line, "\n", ⟨1, 2⟩, 1, 2⟩, ⟨.identifier, "b", ⟨2, 3⟩, 2, 1⟩]
  ending := ⟨.ending, "", ⟨3, 3⟩, 2, 2⟩

namespace Reader

/-- A reader that goes back to a line end and cares about line ends reads it again.  A
    reader that goes where three words have been read finds the mark only. -/
theorem line_end_is_read_again :
    Lexer.base.tokenize "a\nb" = .twoLines ∧ TokenStream.twoLines.Marked ∧
    (∃ reader, TokenStream.twoLines.reader.Becomes reader ∧ reader.checkpoint = ⟨2, false⟩ ∧
      reader.visits 4 = [(⟨.line, "\n", ⟨1, 2⟩, 1, 2⟩, 2), (⟨.identifier, "b", ⟨2, 3⟩, 2, 1⟩, 3),
        (⟨.ending, "", ⟨3, 3⟩, 2, 2⟩, 4), (⟨.ending, "", ⟨3, 3⟩, 2, 2⟩, 4)]) ∧
    ∃ other, (Lexer.base.tokenize "a b c").reader.Becomes other ∧
      other.checkpoint = ⟨6, true⟩ ∧ TokenStream.twoLines.size ≤ 6 ∧
      let away := TokenStream.twoLines.reader.seek ⟨6, true⟩
      away.Becomes (away.ask .consume).2 ∧
      (away.ask .consume).2.ask .read =
        (some ⟨.ending, "", ⟨3, 3⟩, 2, 2⟩, (away.ask .consume).2) := by
  have htokens : Lexer.base.tokenize "a\nb" = .twoLines := by decide +kernel
  have hmarked : TokenStream.twoLines.Marked := htokens ▸ Lexer.base.marked_tokenize _
  obtain ⟨-, hwithin, hbehind⟩ := readers_stop_at_what_matters hmarked
  refine ⟨htokens, hmarked, ?_, ?_⟩
  · have hfirst := ((@Becomes.refl TokenStream.twoLines.reader).asked
      (.setSkipLines false)).asked .read
    have hback := ((hfirst.asked .read).asked (.setSkipLines true)).sentBack hfirst
    obtain ⟨-, -, -, hvisits⟩ := hwithin _ hback
    exact ⟨_, hback, rfl, hvisits 4⟩
  · have hother := (((@Becomes.refl (Lexer.base.tokenize "a b c").reader).asked .read).asked
      .read).asked .read
    have hsize : TokenStream.twoLines.size ≤ 6 := by decide
    have hfurther := (@Becomes.refl (TokenStream.twoLines.reader.seek ⟨6, true⟩)).asked .consume
    obtain ⟨-, -, hreads⟩ := hbehind _ _ ⟨6, true⟩ rfl hsize hfurther
    exact ⟨_, hother, by decide +kernel, hsize, hfurther, hreads .read rfl⟩

end Reader

end TokenGrammar
