/-
  TokenGrammar.Proofs.Match.Ledger

  The tokens that a run has told, and which of them have been undone.  When a reader is
  put back to where it stood at some moment, the events that have been told since are
  undone (`Undoing`); a token among them that no earlier undoing has undone is undone for
  the first time.

  An account of the events is settled (`Settled`) if every undoing is told as far as it
  shows in the position of the reader, and nothing else is told as one.  What carries this
  through a run is that between two readings of the reader's position the tokens that have
  not been undone lie between these positions (`Segment`), and that the moments which the
  reader may still be put back to divide the events into such segments (`Chain`).

  Main statements: a ledger stays one when an event is told (`Ledger.tell`,
  `Ledger.tellToken`), when a moment is noted or dropped (`Ledger.push`, `Ledger.pop`),
  and when the reader is put back to the last one (`Ledger.putBack`).
-/

import TokenGrammar.Match.Track

namespace TokenGrammar

-- ============================================================================
-- Undoing
-- ============================================================================

/-- Whether an event was told as the one with a number, where the first one has the
    number zero. -/
def TellsAt (events : List (Context × Event)) (index : Nat) (event : Event) : Prop :=
  ∃ context, events[index]? = some (context, event)

/-- A moment of a run: how many events have been told, and where the reader stands. -/
structure Moment where
  told : Nat
  checkpoint : Checkpoint
  deriving DecidableEq, Repr

/-- The reader is put back to where it stood at a moment: that moment, and how many events
    have been told when it is put back. -/
structure Undoing where
  since : Moment
  upTo : Nat
  deriving DecidableEq, Repr

/-- Where the reader is put back to. -/
def Undoing.target (undoing : Undoing) : Checkpoint := undoing.since.checkpoint

/-- Whether an event was told between the moment and the putting back. -/
def Undoing.Covers (undoing : Undoing) (index : Nat) : Prop :=
  undoing.since.told ≤ index ∧ index < undoing.upTo

/-- Whether a token was told that none of some undoings undoes. -/
structure Lives (events : List (Context × Event)) (undoings : List Undoing) (index : Nat)
    (matched : Matched) : Prop where
  tells : TellsAt events index (.token matched)
  not_covers : ∀ undoing ∈ undoings, ¬ undoing.Covers index

/-- Whether it shows in the position of a reader that a token is undone by putting the
    reader back to a position: it does unless the token is the mark at the end and the
    reader was there already. -/
def Matched.Shows (matched : Matched) (position : Nat) : Prop :=
  matched.cls ≠ .ending ∨ position < matched.position

/-- Whether the listener is told about some undoings, in the order in which they happened,
    as far as they show, and about nothing else. -/
structure Settled (events : List (Context × Event)) (undoings : List Undoing) : Prop where
  upTo_le : ∀ undoing ∈ undoings, undoing.upTo ≤ events.length
  told : ∀ earlier undoing later, undoings = earlier ++ undoing :: later →
    ∀ index matched, Lives events earlier index matched → undoing.Covers index →
      undoing.target.position ≤ matched.position ∧
      (matched.Shows undoing.target.position →
        TellsAt events undoing.upTo (.rewind undoing.target.position))
  undone : ∀ index position, TellsAt events index (.rewind position) →
    ∃ earlier undoing later, undoings = earlier ++ undoing :: later ∧ undoing.upTo = index ∧
      undoing.target.position = position ∧
      ∃ tokenIndex matched, Lives events earlier tokenIndex matched ∧
        undoing.Covers tokenIndex ∧ matched.Shows position

/-- Nothing has been told and nothing undone. -/
theorem settled_nil : Settled [] [] := by
  refine ⟨?_, ?_, ?_⟩
  · exact List.forall_mem_nil _
  · intro earlier undoing later heq
    exact absurd heq.symm (List.append_ne_nil_of_right_ne_nil _ (List.cons_ne_nil _ _))
  · rintro index position ⟨context, htells⟩
    cases htells

-- ----------------------------------------------------------------------------
-- More events
-- ----------------------------------------------------------------------------

section

variable {events more : List (Context × Event)} {undoings : List Undoing} {index : Nat}
  {event : Event} {matched : Matched} {context : Context}

theorem TellsAt.lt (h : TellsAt events index event) : index < events.length := by
  obtain ⟨context, h⟩ := h
  exact (List.getElem?_eq_some_iff.1 h).1

theorem TellsAt.append (h : TellsAt events index event) : TellsAt (events ++ more) index event := by
  obtain ⟨context, hget⟩ := h
  refine ⟨context, ?_⟩
  rw [List.getElem?_append_left (TellsAt.lt ⟨context, hget⟩)]
  exact hget

theorem TellsAt.of_append (h : TellsAt (events ++ more) index event)
    (hlt : index < events.length) : TellsAt events index event := by
  obtain ⟨context, hget⟩ := h
  rw [List.getElem?_append_left hlt] at hget
  exact ⟨context, hget⟩

theorem tellsAt_concat : TellsAt (events ++ [(context, event)]) events.length event :=
  ⟨context, List.getElem?_concat_length⟩

/-- An event that is told after some others is one of them or the new one. -/
theorem TellsAt.concat_cases {other : Event}
    (h : TellsAt (events ++ [(context, event)]) index other) :
    TellsAt events index other ∨ (index = events.length ∧ other = event) := by
  by_cases hlt : index < events.length
  · exact .inl (h.of_append hlt)
  · have hle := h.lt
    rw [List.length_append, List.length_singleton] at hle
    obtain rfl : index = events.length := by omega
    obtain ⟨found, hget⟩ := h
    rw [List.getElem?_concat_length] at hget
    cases hget
    exact .inr ⟨rfl, rfl⟩

theorem Lives.append (h : Lives events undoings index matched) :
    Lives (events ++ more) undoings index matched :=
  ⟨h.tells.append, h.not_covers⟩

theorem Lives.of_append (h : Lives (events ++ more) undoings index matched)
    (hlt : index < events.length) : Lives events undoings index matched :=
  ⟨h.tells.of_append hlt, h.not_covers⟩

/-- An event that is no undoing leaves an account settled. -/
theorem Settled.tell (h : Settled events undoings) (hevent : ∀ position, event ≠ .rewind position)
    (context : Context) : Settled (events ++ [(context, event)]) undoings := by
  obtain ⟨hupTo, htold, hundone⟩ := h
  refine ⟨fun undoing hmem => ?_, ?_, ?_⟩
  · have hle := hupTo undoing hmem
    rw [List.length_append]
    omega
  · intro earlier undoing later heq index matched hlives hcovers
    have hle := hupTo undoing (by rw [heq]; exact List.mem_append_right _ List.mem_cons_self)
    have hlt : index < events.length := Nat.lt_of_lt_of_le hcovers.2 hle
    obtain ⟨hposition, htells⟩ :=
      htold earlier undoing later heq index matched (hlives.of_append hlt) hcovers
    exact ⟨hposition, fun hshows => (htells hshows).append⟩
  · intro index position htells
    rcases htells.concat_cases with htells | ⟨-, hrewind⟩
    · obtain ⟨earlier, undoing, later, heq, hindex, htarget, tokenIndex, matched, hlives,
        hcovers⟩ := hundone index position htells
      exact ⟨earlier, undoing, later, heq, hindex, htarget, tokenIndex, matched, hlives.append,
        hcovers⟩
    · exact absurd hrewind.symm (hevent position)

end

-- ============================================================================
-- Segments
-- ============================================================================

/-- Between two readings of the reader's position, when `since` and when `upTo` events had
    been told: the tokens told in between that have not been undone lie between the two
    positions, and if the reader got further, one of them shows it. -/
structure Segment (events : List (Context × Event)) (undoings : List Undoing)
    (since start upTo stop : Nat) : Prop where
  since_le : since ≤ upTo
  start_le : start ≤ stop
  within : ∀ index matched, Lives events undoings index matched → since ≤ index →
    index < upTo → start ≤ matched.position ∧ matched.position ≤ stop ∧
      (matched.cls ≠ .ending → matched.position < stop)
  moved : start < stop → ∃ index matched, Lives events undoings index matched ∧
    since ≤ index ∧ index < upTo ∧ matched.Shows start

namespace Segment

variable {events more : List (Context × Event)} {undoings : List Undoing}
  {since start upTo stop : Nat}

/-- Nothing lies between a reading and itself. -/
theorem refl (events : List (Context × Event)) (undoings : List Undoing) (since start : Nat) :
    Segment events undoings since start since start where
  since_le := Nat.le_refl _
  start_le := Nat.le_refl _
  within _ _ _ hfrom hlt := absurd hlt (Nat.not_lt.2 hfrom)
  moved hlt := absurd hlt (Nat.lt_irrefl _)

theorem trans {middle place : Nat} (h : Segment events undoings since start middle place)
    (h' : Segment events undoings middle place upTo stop) :
    Segment events undoings since start upTo stop := by
  refine ⟨Nat.le_trans h.since_le h'.since_le, Nat.le_trans h.start_le h'.start_le, ?_, ?_⟩
  · intro index matched hlives hfrom hlt
    by_cases hmiddle : index < middle
    · obtain ⟨hstart, hplace, hbehind⟩ := h.within index matched hlives hfrom hmiddle
      have hle := h'.start_le
      exact ⟨hstart, by omega, fun hcls => Nat.lt_of_lt_of_le (hbehind hcls) hle⟩
    · obtain ⟨hplace, hstop, hbehind⟩ :=
        h'.within index matched hlives (Nat.le_of_not_lt hmiddle) hlt
      exact ⟨Nat.le_trans h.start_le hplace, hstop, hbehind⟩
  · intro hlt
    by_cases hplace : start < place
    · obtain ⟨index, matched, hlives, hfrom, hmiddle, hshows⟩ := h.moved hplace
      exact ⟨index, matched, hlives, hfrom, Nat.lt_of_lt_of_le hmiddle h'.since_le, hshows⟩
    · obtain rfl : place = start := Nat.le_antisymm (Nat.le_of_not_lt hplace) h.start_le
      obtain ⟨index, matched, hlives, hfrom, hupTo, hshows⟩ := h'.moved hlt
      exact ⟨index, matched, hlives, Nat.le_trans h.since_le hfrom, hupTo, hshows⟩

/-- Later events are told outside of a segment. -/
theorem append (h : Segment events undoings since start upTo stop) (hle : upTo ≤ events.length) :
    Segment (events ++ more) undoings since start upTo stop := by
  refine ⟨h.since_le, h.start_le, ?_, ?_⟩
  · intro index matched hlives hfrom hlt
    exact h.within index matched (hlives.of_append (Nat.lt_of_lt_of_le hlt hle)) hfrom hlt
  · intro hlt
    obtain ⟨index, matched, hlives, hcovers⟩ := h.moved hlt
    exact ⟨index, matched, hlives.append, hcovers⟩

/-- What was told in a segment is not undone by going back to its end. -/
theorem undo (h : Segment events undoings since start upTo stop) {undoing : Undoing}
    (hle : upTo ≤ undoing.since.told) :
    Segment events (undoings ++ [undoing]) since start upTo stop := by
  refine ⟨h.since_le, h.start_le, ?_, ?_⟩
  · intro index matched hlives
    exact h.within index matched ⟨hlives.tells, fun before hbefore =>
      hlives.not_covers before (List.mem_append_left _ hbefore)⟩
  · intro hlt
    obtain ⟨index, matched, hlives, hfrom, hupTo, hshows⟩ := h.moved hlt
    refine ⟨index, matched, ⟨hlives.tells, fun before hbefore => ?_⟩, hfrom, hupTo, hshows⟩
    rcases List.mem_append.1 hbefore with hbefore | hbefore
    · exact hlives.not_covers before hbefore
    · rw [List.mem_singleton.1 hbefore]
      exact fun hcovers => absurd (Nat.lt_of_lt_of_le hupTo hle) (Nat.not_lt.2 hcovers.1)

/-- An event that is no token, told where the reader stands. -/
theorem ofEvent {context : Context} {event : Event}
    (hevent : ∀ matched, event ≠ .token matched) (start : Nat) :
    Segment (events ++ [(context, event)]) undoings events.length start (events.length + 1)
      start := by
  refine ⟨Nat.le_succ _, Nat.le_refl _, ?_, fun hlt => absurd hlt (Nat.lt_irrefl _)⟩
  intro index matched hlives hfrom hlt
  rcases hlives.tells.concat_cases with htells | ⟨-, htoken⟩
  · exact absurd htells.lt (Nat.not_lt.2 hfrom)
  · exact absurd htoken.symm (hevent matched)

end Segment

/-- What matching a token does to the position of the reader: the token does not lie
    before it, the reader gets behind the token unless that is the mark at the end, and it
    does not get further for that mark than to it. -/
structure Matched.Passed (matched : Matched) (start stop : Nat) : Prop where
  start_le : start ≤ matched.position
  le_stop : matched.position ≤ stop
  lt_stop : matched.cls ≠ .ending → matched.position < stop
  shows : start < stop → matched.Shows start

/-- A token that the reader passes. -/
theorem Segment.ofToken {events : List (Context × Event)} {undoings : List Undoing}
    {matched : Matched} {start stop : Nat} (hpassed : matched.Passed start stop)
    (hupTo : ∀ undoing ∈ undoings, undoing.upTo ≤ events.length) (context : Context) :
    Segment (events ++ [(context, .token matched)]) undoings events.length start
      (events.length + 1) stop := by
  refine ⟨Nat.le_succ _, Nat.le_trans hpassed.start_le hpassed.le_stop, ?_, ?_⟩
  · intro index other hlives hfrom hlt
    rcases hlives.tells.concat_cases with htells | ⟨-, htoken⟩
    · exact absurd htells.lt (Nat.not_lt.2 hfrom)
    · cases htoken
      exact ⟨hpassed.start_le, hpassed.le_stop, hpassed.lt_stop⟩
  · intro hlt
    refine ⟨events.length, matched, ⟨tellsAt_concat, fun undoing hmem hcovers => ?_⟩,
      Nat.le_refl _, Nat.lt_succ_self _, hpassed.shows hlt⟩
    exact absurd (Nat.lt_of_lt_of_le hcovers.2 (hupTo undoing hmem)) (Nat.lt_irrefl _)

-- ============================================================================
-- Ledgers
-- ============================================================================

section

variable (events : List (Context × Event)) (undoings : List Undoing) (opened : Nat → Moment)

/-- The moments that the reader may still be put back to divide the events into segments.
    The moment `opened depth` has `depth` others below it. -/
def Chain : Nat → Nat → Nat → Prop
  | _, _, 0 => True
  | upTo, stop, depth + 1 =>
    Segment events undoings (opened depth).told (opened depth).checkpoint.position upTo stop ∧
      Chain (opened depth).told (opened depth).checkpoint.position depth

end

/-- A settled account of the events, with the position of the reader and the moments that
    it may be put back to. -/
structure Ledger (opened : Nat → Moment) (undoings : List Undoing)
    (events : List (Context × Event)) (position depth : Nat) : Prop where
  settled : Settled events undoings
  chain : Chain events undoings opened events.length position depth

section

variable {opened : Nat → Moment} {undoings : List Undoing} {events more : List (Context × Event)}
  {position upTo stop depth : Nat}

/-- Only the moments of the chain matter to it. -/
theorem Chain.congr {other : Nat → Moment} (heq : ∀ below, below < depth → other below = opened below)
    (h : Chain events undoings opened upTo stop depth) :
    Chain events undoings other upTo stop depth := by
  induction depth generalizing upTo stop with
  | zero => trivial
  | succ depth ih =>
      have hlast : other depth = opened depth := heq depth (Nat.lt_succ_self _)
      obtain ⟨hsegment, hbelow⟩ := h
      unfold Chain
      rw [hlast]
      exact ⟨hsegment, ih (fun below hlt => heq below (Nat.lt_succ_of_lt hlt)) hbelow⟩

/-- Later events do not matter to a chain. -/
theorem Chain.append (h : Chain events undoings opened upTo stop depth)
    (hle : upTo ≤ events.length) :
    Chain (events ++ more) undoings opened upTo stop depth := by
  induction depth generalizing upTo stop with
  | zero => trivial
  | succ depth ih =>
      obtain ⟨hsegment, hbelow⟩ := h
      exact ⟨hsegment.append hle, ih hbelow (Nat.le_trans hsegment.since_le hle)⟩

/-- Nor does going back to where it ends. -/
theorem Chain.undo {undoing : Undoing} (h : Chain events undoings opened upTo stop depth)
    (hle : upTo ≤ undoing.since.told) :
    Chain events (undoings ++ [undoing]) opened upTo stop depth := by
  induction depth generalizing upTo stop with
  | zero => trivial
  | succ depth ih =>
      obtain ⟨hsegment, hbelow⟩ := h
      exact ⟨hsegment.undo hle, ih hbelow (Nat.le_trans hsegment.since_le hle)⟩

/-- A chain goes on with another segment. -/
theorem Chain.trans {further place : Nat} (h : Chain events undoings opened upTo stop depth)
    (hsegment : Segment events undoings upTo stop further place) :
    Chain events undoings opened further place depth := by
  cases depth with
  | zero => trivial
  | succ depth => exact ⟨h.1.trans hsegment, h.2⟩

namespace Ledger

theorem congr (h : Ledger opened undoings events position depth) {other : Nat → Moment}
    (heq : ∀ below, below < depth → other below = opened below) :
    Ledger other undoings events position depth :=
  ⟨h.settled, h.chain.congr heq⟩

/-- The reader may be put back to this moment. -/
theorem push (h : Ledger opened undoings events position depth)
    (htold : (opened depth).told = events.length)
    (hposition : (opened depth).checkpoint.position = position) :
    Ledger opened undoings events position (depth + 1) := by
  refine ⟨h.settled, ?_⟩
  unfold Chain
  rw [htold, hposition]
  exact ⟨Segment.refl _ _ _ _, h.chain⟩

/-- It will not be put back to the last moment. -/
theorem pop (h : Ledger opened undoings events position (depth + 1)) :
    Ledger opened undoings events position depth :=
  ⟨h.settled, h.chain.2.trans h.chain.1⟩

/-- An event is told that is neither a token nor an undoing. -/
theorem tell (h : Ledger opened undoings events position depth) {event : Event}
    (htoken : ∀ matched, event ≠ .token matched) (hrewind : ∀ place, event ≠ .rewind place)
    (context : Context) :
    Ledger opened undoings (events ++ [(context, event)]) position depth := by
  refine ⟨h.settled.tell hrewind context, ?_⟩
  rw [List.length_append, List.length_singleton]
  exact (h.chain.append (Nat.le_refl _)).trans (.ofEvent htoken position)

/-- A token is told that the reader passes. -/
theorem tellToken (h : Ledger opened undoings events position depth) {matched : Matched}
    {behind : Nat} (hpassed : matched.Passed position behind) (context : Context) :
    Ledger opened undoings (events ++ [(context, .token matched)]) behind depth := by
  have hrewind : ∀ place, Event.token matched ≠ .rewind place := fun _ => nofun
  refine ⟨h.settled.tell hrewind context, ?_⟩
  rw [List.length_append, List.length_singleton]
  exact (h.chain.append (Nat.le_refl _)).trans (.ofToken hpassed h.settled.upTo_le context)

end Ledger

-- ----------------------------------------------------------------------------
-- Putting the reader back
-- ----------------------------------------------------------------------------

/-- What is told when a reader is put back to a position: that, if it stands behind the
    position, and nothing otherwise. -/
inductive TellsBack (position place : Nat) : List (Context × Event) → Prop where
  | rewind (h : place < position) (context : Context) :
      TellsBack position place [(context, .rewind place)]
  | stay (h : position ≤ place) : TellsBack position place []

/-- No token is told by that. -/
theorem TellsBack.not_token {place index : Nat} {matched : Matched}
    (h : TellsBack position place more)
    (htells : TellsAt (events ++ more) index (.token matched)) : index < events.length := by
  cases h with
  | rewind hlt context =>
      rcases htells.concat_cases with htells | ⟨-, htoken⟩
      · exact htells.lt
      · cases htoken
  | stay hle =>
      rw [List.append_nil] at htells
      exact htells.lt

/-- The tokens of the last segment are undone, and that is told as far as it shows. -/
theorem Settled.putBack {since : Moment} (h : Settled events undoings)
    (hsegment : Segment events undoings since.told since.checkpoint.position events.length
      position)
    (hmore : TellsBack position since.checkpoint.position more) :
    Settled (events ++ more) (undoings ++ [⟨since, events.length⟩]) := by
  refine ⟨fun undoing hmem => ?_, ?_, ?_⟩
  · rw [List.length_append]
    rcases List.mem_append.1 hmem with hmem | hmem
    · have hle := h.upTo_le undoing hmem
      omega
    · rw [List.mem_singleton.1 hmem]
      exact Nat.le_add_right _ _
  · intro earlier undoing later heq index matched hlives hcovers
    have hindex : index < events.length := hmore.not_token hlives.tells
    have hlives' := hlives.of_append hindex
    rcases later.eq_nil_or_concat with rfl | ⟨later', final, rfl⟩
    · obtain ⟨rfl, hundoing⟩ := List.append_inj' heq rfl
      cases hundoing
      obtain ⟨hstart, hstop, hbehind⟩ := hsegment.within index matched hlives' hcovers.1 hcovers.2
      refine ⟨hstart, fun hshows => ?_⟩
      have hlt : since.checkpoint.position < position := by
        rcases hshows with hcls | hlt
        · exact Nat.lt_of_le_of_lt hstart (hbehind hcls)
        · exact Nat.lt_of_lt_of_le hlt hstop
      cases hmore with
      | rewind _ context => exact tellsAt_concat
      | stay hle => exact absurd hlt (Nat.not_lt.2 hle)
    · rw [List.concat_eq_append, ← List.cons_append, ← List.append_assoc] at heq
      obtain ⟨rfl, -⟩ := List.append_inj' heq rfl
      obtain ⟨hposition, htells⟩ := h.told earlier undoing later' rfl index matched hlives' hcovers
      exact ⟨hposition, fun hshows => (htells hshows).append⟩
  · intro index place htells
    have hcases : TellsAt events index (.rewind place) ∨
        (index = events.length ∧ place = since.checkpoint.position ∧
          since.checkpoint.position < position) := by
      cases hmore with
      | rewind hlt context =>
          rcases htells.concat_cases with htells | ⟨hindex, hrewind⟩
          · exact .inl htells
          · cases hrewind
            exact .inr ⟨hindex, rfl, hlt⟩
      | stay hle =>
          rw [List.append_nil] at htells
          exact .inl htells
    rcases hcases with htells | ⟨rfl, rfl, hlt⟩
    · obtain ⟨earlier, undoing, later, rfl, hindex, htarget, tokenIndex, matched, hlives,
        hcovers⟩ := h.undone index place htells
      exact ⟨earlier, undoing, later ++ [_], List.append_assoc _ _ _, hindex, htarget, tokenIndex,
        matched, hlives.append, hcovers⟩
    · obtain ⟨tokenIndex, matched, hlives, hfrom, hupTo, hshows⟩ := hsegment.moved hlt
      exact ⟨undoings, ⟨since, events.length⟩, [], rfl, rfl, rfl, tokenIndex, matched,
        hlives.append, ⟨hfrom, hupTo⟩, hshows⟩

/-- The reader is put back to the last moment. -/
theorem Ledger.putBack (h : Ledger opened undoings events position (depth + 1))
    (hmore : TellsBack position (opened depth).checkpoint.position more) :
    Ledger opened (undoings ++ [⟨opened depth, events.length⟩]) (events ++ more)
      (opened depth).checkpoint.position (depth + 1) := by
  obtain ⟨hsettled, hsegment, hbelow⟩ := h
  refine ⟨hsettled.putBack hsegment hmore, ?_, ?_⟩
  · -- Whatever was told in the last segment is undone.
    have hsince := hsegment.since_le
    refine ⟨?_, Nat.le_refl _, ?_, fun hlt => absurd hlt (Nat.lt_irrefl _)⟩
    · rw [List.length_append]
      omega
    · intro index matched hlives hfrom _
      have hcovers : Undoing.Covers ⟨opened depth, events.length⟩ index :=
        ⟨hfrom, hmore.not_token hlives.tells⟩
      exact absurd hcovers
        (hlives.not_covers _ (List.mem_append_right _ (List.mem_singleton.2 rfl)))
  · exact (hbelow.append hsegment.since_le).undo (Nat.le_refl _)

end

end TokenGrammar
