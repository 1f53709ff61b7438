/-
  TokenGrammar.Proofs.Match.Ahead

  The significant tokens that lie ahead of a position.  A reader that steps over whatever
  is not significant sees the first of them, or the mark at the end if there is none
  (`Reader.Reads.cases`).  So two readers in different streams with the same tokens ahead of
  them see the same, whatever stands between the tokens (`Reader.Matches`).

  Main statements: `Reader.Matches.alike_peek` and `Reader.Matches.read`.
-/

import TokenGrammar.Proofs.Match.Onward

namespace TokenGrammar

-- ============================================================================
-- Tokens
-- ============================================================================

namespace Token

/-- What a token is and what it says, without its place. -/
def content (token : Token) : TokenClass × String := (token.cls, token.text)

/-- Two tokens that nothing but their places tell apart.  What the marks at the end say does
    not matter. -/
def Alike (token other : Token) : Prop :=
  (token.cls = .ending ∧ other.cls = .ending) ∨ token.content = other.content

theorem Alike.shown_eq {token other : Token} (h : token.Alike other) :
    token.shown = other.shown := by
  rcases h with ⟨h, h'⟩ | h
  · simp only [shown, h, h']
  · obtain ⟨hcls, htext⟩ := Prod.mk.inj h
    simp only [shown, hcls, htext]

end Token

/-- A terminal that is a single token does not ask for its place. -/
theorem Terminal.holds_eq (pattern : Terminal) {token other : Token} (h : token.Alike other) :
    pattern.holds token = pattern.holds other := by
  rcases h with ⟨h, h'⟩ | h
  · have hsymbol : (TokenClass.ending == TokenClass.symbol) = false := rfl
    have hkeyword : (TokenClass.ending == TokenClass.keyword) = false := rfl
    have hword : (TokenClass.ending == TokenClass.identifier) = false := rfl
    unfold holds
    split <;> simp [isInteger, h, h', hsymbol, hkeyword, hword]
  · obtain ⟨hcls, htext⟩ := Prod.mk.inj h
    unfold holds
    split <;> simp [isInteger, hcls, htext]

-- ============================================================================
-- Streams
-- ============================================================================

/-- Whether the mark at the end is the only one in a stream. -/
structure TokenStream.Marked (stream : TokenStream) : Prop where
  ending : stream.ending.cls = .ending
  cls_ne : ∀ token ∈ stream.tokens.toList, token.cls ≠ .ending

/-- In the streams that lexing yields it is. -/
theorem Lexer.marked_tokenize (lexer : Lexer) (text : String) : (lexer.tokenize text).Marked :=
  ⟨(lexer.tiles_tokenize text).ending, fun _ => (lexer.tiles_tokenize text).cls_ne_ending_of_mem⟩

namespace TokenStream

/-- The significant tokens from a position on. -/
def ahead (stream : TokenStream) (position : Nat) : List Token :=
  (stream.tokens.toList.drop position).filter fun token => !token.isSkippable true

/-- How many significant tokens stand in front of a position. -/
def significantBefore (stream : TokenStream) (position : Nat) : Nat :=
  ((stream.tokens.toList.take position).filter fun token => !token.isSkippable true).length

/-- Whether a significant token or the mark at the end stands at a position. -/
structure IsSignificant (stream : TokenStream) (position : Nat) : Prop where
  le_last : position ≤ stream.last
  isSkippable_eq : (stream.get position).isSkippable true = false

/-- Whether something that is not significant stands in front of the mark at the end. -/
def Trails (stream : TokenStream) : Prop :=
  0 < stream.last ∧ (stream.get (stream.last - 1)).isSkippable true = true

variable {stream : TokenStream} {position : Nat}

theorem get_eq_getElem (h : position < stream.tokens.toList.length) :
    stream.get position = stream.tokens.toList[position] := by
  rw [get, Array.getElem?_eq_getElem h]
  rfl

theorem ahead_of_last_le (h : stream.last ≤ position) : stream.ahead position = [] := by
  rw [ahead, List.drop_eq_nil_of_le h, List.filter_nil]

theorem ahead_of_isSkippable (h : (stream.get position).isSkippable true = true) :
    stream.ahead position = stream.ahead (position + 1) := by
  by_cases hlast : position < stream.last
  · rw [get_eq_getElem hlast] at h
    rw [ahead, List.drop_eq_getElem_cons hlast, List.filter_cons_of_neg (by simp [h]), ahead]
  · rw [ahead_of_last_le (by omega), ahead_of_last_le (by omega)]

theorem ahead_of_significant (hlast : position < stream.last)
    (h : (stream.get position).isSkippable true = false) :
    stream.ahead position = stream.get position :: stream.ahead (position + 1) := by
  rw [get_eq_getElem hlast] at h ⊢
  rw [ahead, List.drop_eq_getElem_cons hlast, List.filter_cons_of_pos (by simp [h]), ahead]

/-- Nothing but the end is ahead, or one of the tokens ahead stands here or further on. -/
theorem length_ahead_le {further : Nat} (h : position ≤ further) :
    (stream.ahead further).length ≤ (stream.ahead position).length := by
  obtain ⟨count, rfl⟩ := Nat.exists_eq_add_of_le h
  rw [ahead, ahead, ← List.drop_drop]
  exact ((List.drop_sublist _ _).filter _).length_le

theorem significantBefore_add_length_ahead (stream : TokenStream) (position : Nat) :
    stream.significantBefore position + (stream.ahead position).length =
      (stream.ahead 0).length := by
  rw [significantBefore, ahead, ahead, List.drop_zero, ← List.length_append, ← List.filter_append,
    List.take_append_drop]

/-- The significant tokens of a stream are those ahead of its beginning. -/
theorem Marked.significant_eq (h : stream.Marked) : stream.significant = stream.ahead 0 := by
  rw [significant, toList, List.filter_append, ahead, List.drop_zero]
  rw [List.filter_cons_of_neg (by simp [h.ending]), List.filter_nil, List.append_nil]
  exact List.filter_congr fun token hmem => by simp [h.cls_ne token hmem]

theorem Marked.isSignificant_last (h : stream.Marked) : stream.IsSignificant stream.last := by
  refine ⟨Nat.le_refl _, ?_⟩
  rw [get_of_last_le (Nat.le_refl _), Token.isSkippable, h.ending]

/-- Of two places that matter the one with less ahead stands further on. -/
theorem IsSignificant.lt_iff {other : Nat} (h : stream.IsSignificant position)
    (h' : stream.IsSignificant other) :
    position < other ↔ (stream.ahead other).length < (stream.ahead position).length := by
  have hless : ∀ {p q : Nat}, stream.IsSignificant p → q ≤ stream.last → p < q →
      (stream.ahead q).length < (stream.ahead p).length := by
    intro p q hp hq hlt
    rw [ahead_of_significant (by omega) hp.isSkippable_eq, List.length_cons]
    have hle : (stream.ahead q).length ≤ (stream.ahead (p + 1)).length :=
      stream.length_ahead_le hlt
    omega
  constructor
  · exact hless h h'.le_last
  · intro hlt
    by_contra hnot
    have hle := stream.length_ahead_le (Nat.le_of_not_lt hnot)
    omega

/-- A stream that nothing trails has something ahead until its end. -/
theorem eq_last_of_ahead_eq_nil (htrails : ¬stream.Trails) (hle : position ≤ stream.last)
    (h : stream.ahead position = []) : position = stream.last := by
  by_contra hne
  have hskip : (stream.get (stream.last - 1)).isSkippable true = false := by
    cases hskip : (stream.get (stream.last - 1)).isSkippable true with
    | false => rfl
    | true => exact absurd ⟨by omega, hskip⟩ htrails
  have hlength : (stream.ahead (stream.last - 1)).length ≤ (stream.ahead position).length :=
    stream.length_ahead_le (by omega)
  rw [h, ahead_of_significant (by omega) hskip] at hlength
  exact Nat.not_succ_le_zero _ hlength

/-- Behind a significant token something else comes before the end if something trails. -/
theorem succ_lt_last_of_trails (htrails : stream.Trails) (hlast : position < stream.last)
    (h : (stream.get position).isSkippable true = false) : position + 1 < stream.last := by
  by_contra hnot
  obtain rfl : position = stream.last - 1 := by omega
  rw [htrails.2] at h
  cases h

theorem isSkippable_seekSignificant (stream : TokenStream) (skipLines : Bool)
    {steps position : Nat}
    (h : stream.seekSignificant skipLines steps position < position + steps) :
    (stream.get (stream.seekSignificant skipLines steps position)).isSkippable skipLines =
      false := by
  induction steps generalizing position with
  | zero =>
      rw [seekSignificant] at h
      omega
  | succ steps ih =>
      rw [seekSignificant] at h ⊢
      split
      · next hskip =>
        rw [if_pos hskip] at h
        exact ih (by omega)
      · next hskip => exact Bool.eq_false_iff.2 hskip

theorem ahead_eq_of_skippable {further : Nat} (hle : position ≤ further)
    (h : ∀ passed, position ≤ passed → passed < further →
      (stream.get passed).isSkippable true = true) :
    stream.ahead position = stream.ahead further := by
  induction hle with
  | refl => rfl
  | @step further hle ih =>
      rw [ih fun passed hfrom hto => h passed hfrom (by omega)]
      exact ahead_of_isSkippable (h further hle (Nat.lt_succ_self _))

/-- Whether two positions in two streams are those of the same significant token, counted
    from the end, or both those of the mark there. -/
structure SamePlace (left right : TokenStream) (position other : Nat) : Prop where
  isSignificant : left.IsSignificant position
  isSignificant' : right.IsSignificant other
  length_eq : (left.ahead position).length = (right.ahead other).length

theorem SamePlace.symm {left right : TokenStream} {position other : Nat}
    (h : left.SamePlace right position other) : right.SamePlace left other position :=
  ⟨h.isSignificant', h.isSignificant, h.length_eq.symm⟩

/-- The order of such places is the same in both streams. -/
theorem SamePlace.lt_iff {left right : TokenStream} {position other position' other' : Nat}
    (h : left.SamePlace right position other) (h' : left.SamePlace right position' other') :
    position < position' ↔ other < other' := by
  rw [h.isSignificant.lt_iff h'.isSignificant, h.isSignificant'.lt_iff h'.isSignificant',
    h.length_eq, h'.length_eq]

/-- Counted from the beginning they are the same, too, if the streams have as many
    significant tokens. -/
theorem SamePlace.significantBefore_eq {left right : TokenStream} {position other : Nat}
    (h : left.SamePlace right position other)
    (hlength : (left.ahead 0).length = (right.ahead 0).length) :
    left.significantBefore position = right.significantBefore other := by
  have hleft := left.significantBefore_add_length_ahead position
  have hright := right.significantBefore_add_length_ahead other
  have hahead := h.length_eq
  omega

end TokenStream

-- ============================================================================
-- Readers
-- ============================================================================

namespace Reader

/-- A reader within a stream that steps over whatever is not significant. -/
structure Reads (reader : Reader) (stream : TokenStream) : Prop where
  stream_eq : reader.stream = stream
  skipLines_eq : reader.skipLines = true
  le_last : reader.position ≤ stream.last

variable {reader : Reader} {stream : TokenStream}

/-- The next token is the first one ahead, or there is none and it is the mark at the
    end. -/
theorem Reads.cases (h : reader.Reads stream) :
    (reader.significantPosition < stream.last ∧
      (stream.get reader.significantPosition).isSkippable true = false ∧
      stream.ahead reader.position =
        stream.get reader.significantPosition :: stream.ahead (reader.significantPosition + 1)) ∨
    (reader.significantPosition = stream.last ∧ stream.ahead reader.position = []) := by
  obtain ⟨rfl, hlines, hle⟩ := h
  have hskips := reader.skips_significantPosition
  rw [show reader.stream.ahead reader.position = _ from
    TokenStream.ahead_eq_of_skippable hskips.le fun passed hfrom hto =>
      hlines ▸ hskips.isSkippable passed hfrom hto]
  rcases Nat.lt_or_eq_of_le (significantPosition_le_last hle) with hlt | heq
  · have hnot : (reader.stream.get reader.significantPosition).isSkippable true = false := by
      rw [← hlines]
      apply reader.stream.isSkippable_seekSignificant
      show reader.significantPosition < _
      rw [remaining, TokenStream.remaining]
      omega
    exact .inl ⟨hlt, hnot, TokenStream.ahead_of_significant hlt hnot⟩
  · exact .inr ⟨heq, TokenStream.ahead_of_last_le (Nat.le_of_eq heq.symm)⟩

/-- Nothing is ahead exactly at the end. -/
theorem Reads.atEnd_iff (h : reader.Reads stream) :
    reader.atEnd = true ↔ stream.ahead reader.position = [] := by
  rw [atEnd, decide_eq_true_iff, h.stream_eq]
  rcases h.cases with ⟨hlt, -, hahead⟩ | ⟨heq, hahead⟩
  · rw [hahead]
    exact ⟨fun hle => absurd hlt (Nat.not_lt.2 hle), nofun⟩
  · exact ⟨fun _ => hahead, fun _ => Nat.le_of_eq heq.symm⟩

/-- Such a reader is known by its place. -/
theorem Reads.eq_of_position_eq {other : Reader} (h : reader.Reads stream)
    (h' : other.Reads stream) (hposition : reader.position = other.position) : reader = other := by
  obtain ⟨readerStream, position, skipLines⟩ := reader
  obtain ⟨rfl, rfl, -⟩ := h
  obtain ⟨otherStream, position', skipLines'⟩ := other
  obtain ⟨hstream, hlines, -⟩ := h'
  obtain rfl : position = position' := hposition
  obtain rfl : otherStream = readerStream := hstream
  obtain rfl : skipLines' = true := hlines
  rfl

theorem Reads.remaining_eq (h : reader.Reads stream) :
    reader.remaining = stream.last - reader.position := by
  rw [remaining, TokenStream.remaining, h.stream_eq]

theorem Reads.isSignificant (h : reader.Reads stream) (hmarked : stream.Marked) :
    stream.IsSignificant reader.significantPosition := by
  rcases h.cases with ⟨hlt, hskip, -⟩ | ⟨heq, -⟩
  · exact ⟨Nat.le_of_lt hlt, hskip⟩
  · rw [heq]
    exact hmarked.isSignificant_last

/-- Reading the next token leaves a reader behind it, or at the end. -/
theorem Reads.position_read (h : reader.Reads stream) :
    reader.read.2.Reads stream ∧ reader.read.2.position =
      if reader.significantPosition < stream.last then reader.significantPosition + 1
      else reader.significantPosition := by
  obtain ⟨rfl, hlines, hle⟩ := h
  rw [read_snd]
  split
  · next hlt => exact ⟨⟨rfl, hlines, hlt⟩, rfl⟩
  · exact ⟨⟨rfl, hlines, significantPosition_le_last hle⟩, rfl⟩

/-- Two readers in two streams that have the same tokens ahead of them.  If something
    trails in both streams, they also agree on whether that is behind them. -/
structure Matches (left right : TokenStream) (reader other : Reader) : Prop where
  reads : reader.Reads left
  reads' : other.Reads right
  ahead_eq : (left.ahead reader.position).map Token.content =
    (right.ahead other.position).map Token.content
  last_iff : left.Trails → right.Trails →
    (reader.position = left.last ↔ other.position = right.last)

namespace Matches

variable {left right : TokenStream} {reader other : Reader}

theorem symm (h : Matches left right reader other) : Matches right left other reader :=
  ⟨h.reads', h.reads, h.ahead_eq.symm, fun htrails htrails' => (h.last_iff htrails' htrails).symm⟩

theorem length_eq (h : Matches left right reader other) :
    (left.ahead reader.position).length = (right.ahead other.position).length := by
  have hlength := congrArg List.length h.ahead_eq
  rwa [List.length_map, List.length_map] at hlength

/-- Both readers are in front of the same token, or both at the end. -/
theorem cases (h : Matches left right reader other) :
    (reader.significantPosition < left.last ∧ other.significantPosition < right.last ∧
      (left.get reader.significantPosition).isSkippable true = false ∧
      (right.get other.significantPosition).isSkippable true = false ∧
      (left.get reader.significantPosition).content =
        (right.get other.significantPosition).content ∧
      (left.ahead (reader.significantPosition + 1)).map Token.content =
        (right.ahead (other.significantPosition + 1)).map Token.content) ∨
    (reader.significantPosition = left.last ∧ other.significantPosition = right.last) := by
  have hahead := h.ahead_eq
  rcases h.reads.cases with ⟨hlt, hskip, hcons⟩ | ⟨heq, hnil⟩
  · rcases h.reads'.cases with ⟨hlt', hskip', hcons'⟩ | ⟨heq', hnil'⟩
    · rw [hcons, hcons', List.map_cons, List.map_cons] at hahead
      obtain ⟨hhead, htail⟩ := List.cons.inj hahead
      exact .inl ⟨hlt, hlt', hskip, hskip', hhead, htail⟩
    · rw [hcons, hnil'] at hahead
      cases hahead
  · rcases h.reads'.cases with ⟨hlt', hskip', hcons'⟩ | ⟨heq', hnil'⟩
    · rw [hnil, hcons'] at hahead
      cases hahead
    · exact .inr ⟨heq, heq'⟩

/-- They see the same token. -/
theorem alike_peek (h : Matches left right reader other) (hleft : left.Marked)
    (hright : right.Marked) : reader.peek.Alike other.peek := by
  rw [peek, peek, h.reads.stream_eq, h.reads'.stream_eq]
  rcases h.cases with ⟨-, -, -, -, hcontent, -⟩ | ⟨heq, heq'⟩
  · exact .inr hcontent
  · rw [heq, heq', TokenStream.get_of_last_le (Nat.le_refl _),
      TokenStream.get_of_last_le (Nat.le_refl _)]
    exact .inl ⟨hleft.ending, hright.ending⟩

theorem samePlace (h : Matches left right reader other) (hleft : left.Marked)
    (hright : right.Marked) :
    left.SamePlace right reader.significantPosition other.significantPosition := by
  refine ⟨h.reads.isSignificant hleft, h.reads'.isSignificant hright, ?_⟩
  rcases h.cases with ⟨hlt, hlt', hskip, hskip', -, htail⟩ | ⟨heq, heq'⟩
  · have hlength := congrArg List.length htail
    rw [List.length_map, List.length_map] at hlength
    rw [TokenStream.ahead_of_significant hlt hskip, TokenStream.ahead_of_significant hlt' hskip',
      List.length_cons, List.length_cons, hlength]
  · rw [heq, heq', TokenStream.ahead_of_last_le (Nat.le_refl _),
      TokenStream.ahead_of_last_le (Nat.le_refl _)]

/-- When both read it, they have the same tokens ahead of them again. -/
theorem read (h : Matches left right reader other) :
    Matches left right reader.read.2 other.read.2 := by
  obtain ⟨hreads, hposition⟩ := h.reads.position_read
  obtain ⟨hreads', hposition'⟩ := h.reads'.position_read
  rcases h.cases with ⟨hlt, hlt', hskip, hskip', -, htail⟩ | ⟨heq, heq'⟩
  · rw [if_pos hlt] at hposition
    rw [if_pos hlt'] at hposition'
    refine ⟨hreads, hreads', by rw [hposition, hposition', htail], fun htrails htrails' => ?_⟩
    have hmore := TokenStream.succ_lt_last_of_trails htrails hlt hskip
    have hmore' := TokenStream.succ_lt_last_of_trails htrails' hlt' hskip'
    omega
  · rw [if_neg (by omega)] at hposition
    rw [if_neg (by omega)] at hposition'
    refine ⟨hreads, hreads', ?_, fun _ _ => by omega⟩
    rw [hposition, hposition', heq, heq', TokenStream.ahead_of_last_le (Nat.le_refl _),
      TokenStream.ahead_of_last_le (Nat.le_refl _)]

/-- When both go back to where such readers stood, they have the same tokens ahead of them
    as those. -/
theorem seek {start start' : Reader} (h : Matches left right reader other)
    (hstart : Matches left right start start') :
    Matches left right (reader.seek start.checkpoint) (other.seek start'.checkpoint) :=
  ⟨⟨h.reads.stream_eq, hstart.reads.skipLines_eq, hstart.reads.le_last⟩,
    ⟨h.reads'.stream_eq, hstart.reads'.skipLines_eq, hstart.reads'.le_last⟩, hstart.ahead_eq,
    hstart.last_iff⟩

theorem atEnd_eq (h : Matches left right reader other) : reader.atEnd = other.atEnd := by
  rw [Bool.eq_iff_iff, h.reads.atEnd_iff, h.reads'.atEnd_iff, ← List.length_eq_zero_iff,
    ← List.length_eq_zero_iff, h.length_eq]

/-- If only one of two such readers gets on, and to the end, then something stands in front
    of the mark there in its stream, but not in the other one. -/
theorem parts_at_end {further : Reader} (h : Matches left right reader other)
    (hfurther : Matches left right further other) (hlt : reader.position < left.last)
    (hlast : further.position = left.last) :
    (left.Trails ∧ ¬right.Trails) ∧ other.atEnd = true := by
  have hnone : right.ahead other.position = [] := by
    rw [← List.length_eq_zero_iff, ← hfurther.length_eq, hlast,
      TokenStream.ahead_of_last_le (Nat.le_refl _), List.length_nil]
  have hnone' : left.ahead reader.position = [] := by
    rw [← List.length_eq_zero_iff, h.length_eq, hnone, List.length_nil]
  have htrails : left.Trails := by
    by_contra htrails
    have hend := TokenStream.eq_last_of_ahead_eq_nil htrails h.reads.le_last hnone'
    omega
  refine ⟨⟨htrails, fun htrails' => ?_⟩, h.reads'.atEnd_iff.2 hnone⟩
  have hend := (h.last_iff htrails htrails').2 ((hfurther.last_iff htrails htrails').1 hlast)
  omega

/-- Two readers at the beginning of streams with the same significant tokens. -/
theorem start (hleft : left.Marked) (hright : right.Marked)
    (h : left.significant.map Token.content = right.significant.map Token.content) :
    Matches left right left.reader right.reader := by
  refine ⟨⟨rfl, rfl, Nat.zero_le _⟩, ⟨rfl, rfl, Nat.zero_le _⟩, ?_, fun htrails htrails' => ?_⟩
  · rw [hleft.significant_eq, hright.significant_eq] at h
    exact h
  · have hpos := htrails.1
    have hpos' := htrails'.1
    show 0 = left.last ↔ 0 = right.last
    omega

end Matches

end Reader

end TokenGrammar
