/-
  TokenGrammar.Proofs.Match.Onward

  Reading takes a reader onward and nowhere else: it stays in its stream, keeps its
  opinion on line ends, never goes back, and does not pass the end of the stream.  A
  reader may stand behind the end to begin with; then it stays where it is.

  Main statement: `Reader.onward_next`.
-/

import TokenGrammar.Proofs.Match.Consumption

namespace TokenGrammar

namespace Reader

/-- The second reader stands where the first one does or further on, and only then
    behind the end of their stream if the first one does. -/
structure Onward (reader further : Reader) : Prop where
  stream_eq : further.stream = reader.stream
  skipLines_eq : further.skipLines = reader.skipLines
  position_le : reader.position ≤ further.position
  le_last : further.position ≤ max reader.stream.last reader.position

variable {reader further : Reader}

theorem Onward.refl (reader : Reader) : reader.Onward reader :=
  ⟨rfl, rfl, Nat.le_refl _, Nat.le_max_right _ _⟩

theorem Onward.trans {between : Reader} (h : reader.Onward between)
    (hfurther : between.Onward further) : reader.Onward further := by
  have hlast := hfurther.le_last
  have hbetween := h.le_last
  rw [h.stream_eq] at hlast
  exact ⟨hfurther.stream_eq.trans h.stream_eq, hfurther.skipLines_eq.trans h.skipLines_eq,
    Nat.le_trans h.position_le hfurther.position_le, by omega⟩

/-- A reader that has only gone onward can be put back. -/
theorem Onward.seek_checkpoint (h : reader.Onward further) :
    further.seek reader.checkpoint = reader := by
  simp only [seek, checkpoint, h.stream_eq]

theorem Onward.consume (h : reader.Onward further) : reader.Onward further.consume := by
  obtain ⟨hstream, hskip, hle, hlast⟩ := h
  unfold Reader.consume
  split
  · next hlt =>
    rw [hstream] at hlt
    exact ⟨hstream, hskip, Nat.le_succ_of_le hle, Nat.le_trans hlt (Nat.le_max_left _ _)⟩
  · exact ⟨hstream, hskip, hle, hlast⟩

theorem onward_moveTo_significantPosition (reader : Reader) :
    reader.Onward (reader.moveTo reader.significantPosition) := by
  refine ⟨rfl, rfl, reader.le_significantPosition, ?_⟩
  have hle := reader.stream.seekSignificant_le reader.skipLines reader.remaining reader.position
  rw [remaining, TokenStream.remaining] at hle
  show reader.stream.seekSignificant reader.skipLines reader.remaining reader.position ≤ _
  rw [remaining, TokenStream.remaining]
  omega

theorem onward_next (reader : Reader) (adjacent : Bool) :
    reader.Onward (reader.next adjacent).after := by
  cases adjacent with
  | false => exact reader.onward_moveTo_significantPosition.consume
  | true =>
      simp only [next, if_true]
      split
      · exact (Onward.refl reader).consume.consume
      · exact (Onward.refl reader).consume

end Reader

end TokenGrammar
