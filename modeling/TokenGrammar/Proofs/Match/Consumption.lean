/-
  TokenGrammar.Proofs.Match.Consumption

  What a terminal takes out of the tokens of a text.  Between the reader and the
  match only tokens are passed over that do not matter, the match begins where
  its first token does and ends where the token before the reader's new position
  ends.  The mark at the end may be matched too, and is never passed.

  Main statement: `Terminal.takes_of_matchAt`.
-/

import TokenGrammar.Match.Terminal
import TokenGrammar.Proofs.Lexer.Tiling

namespace TokenGrammar

-- ============================================================================
-- Passing over tokens
-- ============================================================================

namespace TokenStream

/-- A token that may stand in a text is not the mark at its end. -/
theorem Tiles.lt_last_of_cls_ne {stream : TokenStream} (h : stream.Tiles) {position : Nat}
    (hcls : (stream.get position).cls ≠ .ending) : position < stream.last := by
  by_cases hlast : position < stream.last
  · exact hlast
  · rw [get_of_last_le (Nat.le_of_not_lt hlast), h.ending] at hcls
    exact absurd rfl hcls

theorem le_seekSignificant (stream : TokenStream) (skipLines : Bool) (steps position : Nat) :
    position ≤ stream.seekSignificant skipLines steps position := by
  induction steps generalizing position with
  | zero => exact Nat.le_refl _
  | succ steps ih =>
      rw [seekSignificant]
      split
      · have := ih (position + 1)
        omega
      · exact Nat.le_refl _

theorem seekSignificant_le (stream : TokenStream) (skipLines : Bool) (steps position : Nat) :
    stream.seekSignificant skipLines steps position ≤ position + steps := by
  induction steps generalizing position with
  | zero => exact Nat.le_refl _
  | succ steps ih =>
      rw [seekSignificant]
      split
      · have := ih (position + 1)
        omega
      · omega

theorem isSkippable_of_lt_seekSignificant {stream : TokenStream} {skipLines : Bool}
    {steps position passed : Nat} (hle : position ≤ passed)
    (hlt : passed < stream.seekSignificant skipLines steps position) :
    (stream.get passed).isSkippable skipLines = true := by
  induction steps generalizing position with
  | zero =>
      rw [seekSignificant] at hlt
      omega
  | succ steps ih =>
      rw [seekSignificant] at hlt
      split at hlt
      · next hskip =>
        by_cases heq : passed = position
        · rw [heq]
          exact hskip
        · exact ih (by omega) hlt
      · omega

end TokenStream

namespace Reader

theorem le_significantPosition (reader : Reader) :
    reader.position ≤ reader.significantPosition :=
  TokenStream.le_seekSignificant _ _ _ _

theorem significantPosition_le_last {reader : Reader} (h : reader.position ≤ reader.stream.last) :
    reader.significantPosition ≤ reader.stream.last := by
  have hle := reader.stream.seekSignificant_le reader.skipLines reader.remaining reader.position
  rw [remaining, TokenStream.remaining] at hle
  rw [significantPosition, remaining, TokenStream.remaining]
  omega

/-- From the end of the stream on, a reader looks no further. -/
theorem significantPosition_of_last_le {reader : Reader}
    (h : reader.stream.last ≤ reader.position) :
    reader.significantPosition = reader.position := by
  rw [significantPosition, remaining, TokenStream.remaining, Nat.sub_eq_zero_of_le h]
  rfl

theorem consume_of_lt {reader : Reader} (h : reader.position < reader.stream.last) :
    reader.consume = reader.moveTo (reader.position + 1) := if_pos h

theorem read_snd (reader : Reader) :
    reader.read.2 = reader.moveTo (if reader.significantPosition < reader.stream.last then
      reader.significantPosition + 1 else reader.significantPosition) := by
  show (reader.moveTo reader.significantPosition).consume = _
  by_cases hlt : reader.significantPosition < reader.stream.last
  · rw [if_pos hlt]
    exact consume_of_lt hlt
  · rw [if_neg hlt]
    exact if_neg hlt

/-- A reader that goes on to a position passes over nothing that matters to it. -/
structure Skips (reader : Reader) (position : Nat) : Prop where
  le : reader.position ≤ position
  isSkippable : ∀ passed, reader.position ≤ passed → passed < position →
    (reader.stream.get passed).isSkippable reader.skipLines = true

theorem skips_significantPosition (reader : Reader) :
    reader.Skips reader.significantPosition :=
  ⟨reader.le_significantPosition, fun _ => TokenStream.isSkippable_of_lt_seekSignificant⟩

/-- The first token of a terminal is the one at its position, and the reader goes on
    from there. -/
theorem next_eq (reader : Reader) (adjacent : Bool) :
    reader.next adjacent =
      ⟨(reader.next adjacent).position, reader.stream.get (reader.next adjacent).position,
        (reader.moveTo (reader.next adjacent).position).consume⟩ := by
  cases adjacent with
  | false => rfl
  | true =>
      simp only [next, if_true]
      split
      · by_cases hlast : reader.position < reader.stream.last
        · rw [consume_of_lt hlast]
          rfl
        · have hstays : reader.consume = reader := if_neg hlast
          rw [hstays]
          rfl
      · rfl

theorem skips_next (reader : Reader) (adjacent : Bool) :
    reader.Skips (reader.next adjacent).position := by
  cases adjacent with
  | false => exact reader.skips_significantPosition
  | true =>
      simp only [next, if_true]
      split
      · next hbeginning =>
        unfold consume
        split
        · refine ⟨Nat.le_succ _, fun passed hle hlt => ?_⟩
          obtain rfl : passed = reader.position := by
            simp only [moveTo] at hlt
            omega
          rw [Token.isSkippable, show (reader.stream.get reader.position).cls = .beginning from
            eq_of_beq hbeginning]
        · exact ⟨Nat.le_refl _, fun _ hle hlt => absurd hlt (Nat.not_lt.2 hle)⟩
      · exact ⟨Nat.le_refl _, fun _ hle hlt => absurd hlt (Nat.not_lt.2 hle)⟩

theorem next_position_le_last {reader : Reader} (h : reader.position ≤ reader.stream.last)
    (adjacent : Bool) : (reader.next adjacent).position ≤ reader.stream.last := by
  cases adjacent with
  | false => exact significantPosition_le_last h
  | true =>
      simp only [next, if_true]
      split
      · unfold consume
        split
        · assumption
        · exact h
      · exact h

-- ============================================================================
-- Tokens in a row
-- ============================================================================

/-- The second reader stands behind tokens of the first one's stream that begin at a
    position and end at an offset. -/
structure Behind (reader : Reader) (first stop : Nat) (behind : Reader) : Prop where
  stream_eq : behind.stream = reader.stream
  skipLines_eq : behind.skipLines = reader.skipLines
  first_lt : first < behind.position
  position_le : behind.position ≤ reader.stream.last
  stop_eq : stop = (reader.stream.get (behind.position - 1)).span.stop

variable {reader behind : Reader} {first stop : Nat}

/-- No token of the row reaches beyond it. -/
theorem Behind.stop_le (h : reader.Behind first stop behind) (htiles : reader.stream.Tiles)
    {index : Nat} (hfrom : first ≤ index) (hlt : index < behind.position) :
    (reader.stream.get index).span.stop ≤ stop := by
  have hlast := h.position_le
  rw [h.stop_eq]
  by_cases hfinal : index = behind.position - 1
  · rw [hfinal]
  · calc (reader.stream.get index).span.stop ≤ reader.stream.offset (behind.position - 1) :=
          htiles.stop_le_offset (by omega) (by omega)
      _ ≤ (reader.stream.get (behind.position - 1)).span.stop :=
          htiles.offset_le_stop (by omega)

/-- One more token in the row. -/
theorem Behind.consume (h : reader.Behind first stop behind) (htiles : reader.stream.Tiles)
    (hcls : behind.peekAdjacent.cls ≠ .ending) :
    reader.Behind first behind.peekAdjacent.span.stop behind.consume := by
  obtain ⟨hstream, hskip, hfirst, -, -⟩ := h
  rw [peekAdjacent, hstream] at hcls
  have hlt := htiles.lt_last_of_cls_ne hcls
  rw [consume_of_lt (by rw [hstream]; exact hlt), peekAdjacent, hstream]
  exact ⟨hstream, hskip, Nat.lt_succ_of_lt hfirst, hlt, rfl⟩

/-- The first token of a row. -/
theorem behind_next (reader : Reader) (adjacent : Bool) (htiles : reader.stream.Tiles)
    (hcls : (reader.next adjacent).token.cls ≠ .ending) :
    reader.Behind (reader.next adjacent).position (reader.next adjacent).token.span.stop
      (reader.next adjacent).after := by
  rw [next_eq] at hcls ⊢
  have hlt := htiles.lt_last_of_cls_ne hcls
  dsimp only
  rw [consume_of_lt hlt]
  exact ⟨rfl, rfl, Nat.lt_succ_self _, hlt, rfl⟩

end Reader

-- ============================================================================
-- Numbers
-- ============================================================================

theorem cls_ne_of_beq {token : Token} {cls other : TokenClass} (h : (token.cls == cls) = true)
    (hne : cls ≠ other) : token.cls ≠ other := by
  rw [eq_of_beq h]
  exact hne

theorem cls_ne_ending_of_isSymbol {token : Token} {text : String}
    (h : token.isSymbol text = true) : token.cls ≠ .ending := by
  rw [Token.isSymbol, Bool.and_eq_true] at h
  exact cls_ne_of_beq h.1 (by decide)

namespace PartialNumber

/-- The second number is the first one with more tokens, none of which is the mark at the
    end. -/
inductive Grows (number : PartialNumber) : PartialNumber → Prop where
  | refl : Grows number number
  | take {further : PartialNumber} (h : Grows number further) (hcls : further.next.cls ≠ .ending) :
      Grows number further.take

section Grows

variable {start number result : PartialNumber}

theorem Grows.takeSign (h : start.Grows number) : start.Grows number.takeSign := by
  unfold PartialNumber.takeSign
  split
  · next hsign =>
    rcases (Bool.or_eq_true _ _).mp hsign with hsign | hsign
    · exact h.take (cls_ne_ending_of_isSymbol hsign)
    · exact h.take (cls_ne_ending_of_isSymbol hsign)
  · exact h

theorem Grows.of_withoutPoint {mismatch : Mismatch} (h : start.Grows number)
    (hresult : number.withoutPoint mismatch = .ok result) : start.Grows result := by
  unfold withoutPoint at hresult
  split at hresult
  · cases hresult
  · cases hresult
    exact h

theorem Grows.of_readExponent {position : Nat} {rest : List Char} (h : start.Grows number)
    (hresult : number.readExponent position rest = .ok result) : start.Grows result := by
  unfold readExponent at hresult
  dsimp only at hresult
  split at hresult
  · split at hresult
    · next hdigits =>
      rw [Bool.and_eq_true] at hdigits
      have htake := h.takeSign.take (cls_ne_of_beq hdigits.1 (by decide))
      exact htake.of_withoutPoint hresult
    · cases hresult
  · split at hresult
    · exact h.of_withoutPoint hresult
    · cases hresult

theorem Grows.of_readFraction {base : NumberBase} (h : start.Grows number)
    (hresult : number.readFraction base = .ok result) : start.Grows result := by
  unfold readFraction at hresult
  dsimp only at hresult
  split at hresult
  · next hfraction =>
    have htake := h.take (cls_ne_of_beq hfraction (by decide))
    split at hresult
    · cases hresult
    · exact htake.of_readExponent hresult
    · split at hresult
      · cases hresult
      · exact htake.of_withoutPoint hresult
  · cases hresult

/-- Reading the rest of a number takes tokens one by one. -/
theorem grows_of_readRest {position : Nat} (hresult : number.readRest position = .ok result) :
    number.Grows result := by
  have hstart : number.Grows number := .refl
  unfold readRest at hresult
  dsimp only at hresult
  split at hresult
  · cases hresult
  · exact hstart.of_readExponent hresult
  · split at hresult
    · next hpoint =>
      exact (hstart.take (cls_ne_ending_of_isSymbol hpoint)).of_readFraction hresult
    · cases hresult
      exact hstart

end Grows

/-- A number whose tokens begin at a position. -/
def Spans (number : PartialNumber) (reader : Reader) (first : Nat) : Prop :=
  reader.Behind first number.stop number.reader

theorem Spans.of_grows {reader : Reader} {first : Nat} {number result : PartialNumber}
    (h : number.Spans reader first) (htiles : reader.stream.Tiles) (hgrows : number.Grows result) :
    result.Spans reader first := by
  induction hgrows with
  | refl => exact h
  | take _ hcls ih => exact Reader.Behind.consume ih htiles hcls

end PartialNumber

-- ============================================================================
-- Terminals
-- ============================================================================

/-- What the first reader passes over and takes when something is matched and the
    second one stands behind it. -/
structure Reader.Takes (reader : Reader) (matched : Matched) (behind : Reader) : Prop where
  skips : reader.Skips matched.position
  start_eq : matched.span.start = reader.stream.offset matched.position
  stream_eq : behind.stream = reader.stream
  skipLines_eq : behind.skipLines = reader.skipLines
  ends : (matched.cls = .ending ∧ behind.position = matched.position ∧
      behind.position = reader.stream.last) ∨
    (matched.cls ≠ .ending ∧ 0 < matched.position ∧
      reader.Behind matched.position matched.span.stop behind)

namespace Reader

variable {reader behind : Reader} {matched : Matched}

theorem takes_of_behind {adjacent : Bool} (htiles : reader.stream.Tiles)
    (hbeginning : (reader.next adjacent).token.cls ≠ .beginning) (hcls : matched.cls ≠ .ending)
    (hposition : matched.position = (reader.next adjacent).position)
    (hstart : matched.span.start = (reader.next adjacent).token.span.start)
    (h : reader.Behind matched.position matched.span.stop behind) :
    reader.Takes matched behind := by
  refine ⟨?_, ?_, h.stream_eq, h.skipLines_eq, .inr ⟨hcls, ?_, h⟩⟩
  · rw [hposition]
    exact reader.skips_next adjacent
  · rw [hstart, next_eq, hposition]
    rfl
  · rw [hposition]
    apply Nat.pos_of_ne_zero
    intro hzero
    rw [next_eq, hzero] at hbeginning
    exact hbeginning htiles.beginning

end Reader

theorem takes_of_matchNumber {adjacent : Bool} {reader behind : Reader} {matched : Matched}
    (htiles : reader.stream.Tiles) (h : matchNumber adjacent reader = .ok (matched, behind)) :
    reader.Takes matched behind := by
  unfold matchNumber at h
  dsimp only at h
  split at h
  · next hword =>
    rw [Bool.and_eq_true] at hword
    have hcls : (reader.next adjacent).token.cls ≠ .ending := cls_ne_of_beq hword.1 (by decide)
    split at h
    · cases h
    · next number hrest =>
      cases h
      let word := reader.next adjacent
      let start : PartialNumber := ⟨word.token.text, word.token.span.stop, word.after⟩
      have hstart : start.Spans reader word.position :=
        reader.behind_next adjacent htiles hcls
      have hgrows : start.Grows number := PartialNumber.grows_of_readRest hrest
      have hspans : number.Spans reader word.position := hstart.of_grows htiles hgrows
      have hbeginning : word.token.cls ≠ .beginning := cls_ne_of_beq hword.1 (by decide)
      exact Reader.takes_of_behind htiles hbeginning (fun hcls => nomatch hcls) rfl rfl hspans
  · cases h

theorem takes_of_matchString {adjacent : Bool} {reader behind : Reader} {matched : Matched}
    (htiles : reader.stream.Tiles) (h : matchString adjacent reader = .ok (matched, behind)) :
    reader.Takes matched behind := by
  unfold matchString at h
  dsimp only at h
  split at h
  · next hquote =>
    rw [Bool.and_eq_true] at hquote
    have hbeginning : (reader.next adjacent).token.cls ≠ .beginning :=
      cls_ne_of_beq hquote.1 (by decide)
    have hopen := reader.behind_next adjacent htiles (cls_ne_of_beq hquote.1 (by decide))
    split at h
    · next hpayload =>
      split at h
      · next hclose =>
        cases h
        have hheld := hopen.consume htiles (cls_ne_of_beq hpayload (by decide))
        have hwhole := hheld.consume htiles (cls_ne_ending_of_isSymbol hclose)
        exact Reader.takes_of_behind htiles hbeginning (fun hcls => nomatch hcls) rfl rfl hwhole
      · cases h
    · split at h
      · next hclose =>
        cases h
        have hwhole := hopen.consume htiles (cls_ne_ending_of_isSymbol hclose)
        exact Reader.takes_of_behind htiles hbeginning (fun hcls => nomatch hcls) rfl rfl hwhole
      · cases h
  · cases h

namespace Terminal

theorem classOf_ne_ending (terminal : Terminal) {token : Token} (h : token.cls ≠ .ending) :
    terminal.classOf token ≠ .ending := by
  unfold classOf
  split
  · exact fun hcls => nomatch hcls
  · exact h

/-- Only a terminal that asks for the end of the input holds for the mark there. -/
theorem classOf_of_holds {terminal : Terminal} {token : Token}
    (h : terminal.holds token = true) (hcls : token.cls = .ending) :
    terminal.classOf token = .ending := by
  unfold classOf
  split
  · simp [holds, isInteger, hcls] at h
  · exact hcls

/-- No terminal holds for the mark at the beginning. -/
theorem cls_ne_beginning_of_holds {terminal : Terminal} {token : Token}
    (h : terminal.holds token = true) : token.cls ≠ .beginning := by
  intro hcls
  unfold holds at h
  split at h <;> simp [isInteger, hcls] at h

theorem takes_of_matchSingle {terminal : Terminal} {adjacent : Bool} {reader behind : Reader}
    {matched : Matched} (htiles : reader.stream.Tiles)
    (hposition : reader.position ≤ reader.stream.last)
    (h : terminal.matchSingle adjacent reader = .ok (matched, behind)) :
    reader.Takes matched behind := by
  unfold matchSingle at h
  dsimp only at h
  split at h
  · next hholds =>
    cases h
    by_cases hcls : (reader.next adjacent).token.cls = .ending
    · have hle := Reader.next_position_le_last hposition adjacent
      have hskips := reader.skips_next adjacent
      have hclass := classOf_of_holds hholds hcls
      rw [Reader.next_eq] at hcls
      have hlast : (reader.next adjacent).position = reader.stream.last :=
        Nat.le_antisymm hle (htiles.last_le_of_ending hcls)
      have hafter : (reader.next adjacent).after = reader.moveTo reader.stream.last := by
        rw [Reader.next_eq, hlast]
        exact if_neg (Nat.lt_irrefl _)
      refine ⟨hskips, ?_, ?_, ?_, .inl ⟨hclass, ?_, ?_⟩⟩
      · show (reader.next adjacent).token.span.start = _
        rw [Reader.next_eq]
        rfl
      · rw [hafter]
        rfl
      · rw [hafter]
        rfl
      · rw [hafter]
        exact hlast.symm
      · rw [hafter]
        rfl
    · have hbehind := reader.behind_next adjacent htiles hcls
      exact Reader.takes_of_behind htiles (cls_ne_beginning_of_holds hholds)
        (terminal.classOf_ne_ending hcls) rfl rfl hbehind
  · cases h

/-- A terminal takes a row of tokens, or matches the mark at the end, and what it
    passes over before does not matter. -/
theorem takes_of_matchAt {terminal : Terminal} {adjacent : Bool} {reader behind : Reader}
    {matched : Matched} (htiles : reader.stream.Tiles)
    (hposition : reader.position ≤ reader.stream.last)
    (h : terminal.matchAt adjacent reader = .ok (matched, behind)) :
    reader.Takes matched behind := by
  unfold matchAt at h
  split at h
  · exact takes_of_matchNumber htiles h
  · exact takes_of_matchString htiles h
  · exact takes_of_matchSingle htiles hposition h

end Terminal

end TokenGrammar
