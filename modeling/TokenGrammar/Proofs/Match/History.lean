/-
  TokenGrammar.Proofs.Match.History

  The events that a run has told so far, as a track knows them whose listener
  writes them down.  Telling an event adds it at the end, in the context of the
  track that tells it; going back adds an event only if the reader really moves.
-/

import TokenGrammar.Proofs.Match.Moves

namespace TokenGrammar

variable {σ : Type}

/-- The events that have been written down, in order. -/
def Track.history (track : Track (σ × List (Context × Event))) : List (Context × Event) :=
  track.memory.2.reverse

namespace Setting

/-- Whether the listener of a run writes down every event. -/
def Records (setting : Setting (σ × List (Context × Event))) : Prop :=
  ∃ listener : Listener σ, setting.listener = listener.recording

variable {setting : Setting (σ × List (Context × Event))}
  {track : Track (σ × List (Context × Event))}

theorem history_emit (hrecords : setting.Records) (event : Event)
    (track : Track (σ × List (Context × Event))) :
    (track.emit setting.listener event).2.history = track.history ++ [(track.context, event)] := by
  obtain ⟨listener, hlistener⟩ := hrecords
  rw [hlistener, Track.history, Track.history, ← List.reverse_cons]
  rfl

theorem rewind_of_lt {checkpoint : Checkpoint}
    (h : checkpoint.position < track.reader.position) :
    (track.rewind setting.listener checkpoint).2 =
      ((track.withReader (track.reader.seek checkpoint)).emit setting.listener
        (.rewind checkpoint.position)).2 := by
  unfold Track.rewind
  dsimp only
  rw [if_pos h]
  rcases (track.withReader (track.reader.seek checkpoint)).emit setting.listener
    (.rewind checkpoint.position) with ⟨_ | refusal | refusal, told⟩
  · rfl
  · rfl
  · rfl

theorem rewind_of_le {checkpoint : Checkpoint}
    (h : track.reader.position ≤ checkpoint.position) :
    (track.rewind setting.listener checkpoint).2 =
      track.withReader (track.reader.seek checkpoint) := by
  unfold Track.rewind
  dsimp only
  rw [if_neg (Nat.not_lt.2 h)]

end Setting

end TokenGrammar
