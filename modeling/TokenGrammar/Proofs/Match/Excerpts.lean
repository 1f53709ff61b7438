/-
  TokenGrammar.Proofs.Match.Excerpts

  What a match says about the text.  The tokens that a terminal takes lie side by side and
  each holds a slice of the text, so the texts of all of them in a row are the slice from
  where the first one begins to where the last one ends (`Reader.Row.consume`).  A match
  has that slice for its text, or what stands between the quotes at both ends of it.

  Main statement: `Lexer.matches_are_excerpts`.
-/

import Mathlib.Order.Bounds.Defs
import TokenGrammar.Proofs.Lexer.Slices
import TokenGrammar.Proofs.Match.Scanners

namespace TokenGrammar

-- ============================================================================
-- Slices side by side
-- ============================================================================

/-- Whether a text holds another one between two places that lie between characters. -/
def Span.Holds (span : Span) (source text : String) : Prop :=
  ∃ first last : source.Pos, first.offset.byteIdx = span.start ∧
    last.offset.byteIdx = span.stop ∧ String.extract first last = text

theorem Token.holds_of_isSlice {token : Token} {source : String} (h : token.IsSlice source) :
    token.span.Holds source token.text := h

/-- Two slices side by side are one slice. -/
theorem Span.Holds.append {source left right : String} {start middle stop : Nat}
    (h : Span.Holds ⟨start, middle⟩ source left) (hright : Span.Holds ⟨middle, stop⟩ source right)
    (hle : start ≤ middle) (hle' : middle ≤ stop) :
    Span.Holds ⟨start, stop⟩ source (left ++ right) := by
  obtain ⟨first, between, hfirst, hbetween, rfl⟩ := h
  obtain ⟨other, last, hother, hlast, rfl⟩ := hright
  obtain rfl : between = other :=
    String.Pos.ext (String.Pos.Raw.ext (hbetween.trans hother.symm))
  refine ⟨first, last, hfirst, hlast, ?_⟩
  dsimp only at hfirst hbetween hlast
  rw [← String.toByteArray_inj, String.toByteArray_append, String.toByteArray_extract,
    String.toByteArray_extract, String.toByteArray_extract, hfirst, hbetween, hlast]
  exact ByteArray.extract_eq_extract_append_extract middle hle hle'

-- ============================================================================
-- Rows of tokens
-- ============================================================================

/-- The tokens of a stream lie side by side, and each holds a slice of a text. -/
structure TokenStream.Slices (stream : TokenStream) (source : String) : Prop where
  tiles : stream.Tiles
  isSlice : ∀ position, (stream.get position).IsSlice source

theorem Lexer.slices_tokenize (lexer : Lexer) (source : String) :
    (lexer.tokenize source).Slices source :=
  ⟨lexer.tiles_tokenize source, fun position =>
    (lexer.cutsUp_place source).isSlice _ ((lexer.tokenize source).get_mem_toList position)⟩

namespace Reader

/-- The second reader stands behind a row of tokens of the first one's stream.  The row
    begins at a position and ends at an offset, and `held` is the slice of the text that it
    makes up. -/
structure Row (reader : Reader) (source : String) (first : Nat) (held : String) (stop : Nat)
    (behind : Reader) : Prop where
  toBehind : reader.Behind first stop behind
  start_le : reader.stream.offset first ≤ stop
  holds : Span.Holds ⟨reader.stream.offset first, stop⟩ source held

variable {reader behind : Reader} {source held : String} {first stop : Nat}

/-- The first token of a row. -/
theorem row_next (hslices : reader.stream.Slices source) (adjacent : Bool)
    (hcls : (reader.next adjacent).token.cls ≠ .ending) :
    reader.Row source (reader.next adjacent).position (reader.next adjacent).token.text
      (reader.next adjacent).token.span.stop (reader.next adjacent).after := by
  have hbehind := reader.behind_next adjacent hslices.tiles hcls
  rw [next_eq] at hcls hbehind ⊢
  have hlast := hslices.tiles.lt_last_of_cls_ne hcls
  exact ⟨hbehind, hslices.tiles.offset_le_stop hlast, hslices.isSlice _⟩

/-- One more token in the row. -/
theorem Row.consume (h : reader.Row source first held stop behind)
    (hslices : reader.stream.Slices source) (hcls : behind.peekAdjacent.cls ≠ .ending) :
    reader.Row source first (held ++ behind.peekAdjacent.text) behind.peekAdjacent.span.stop
      behind.consume := by
  obtain ⟨hbehind, hle, hheld⟩ := h
  have hfurther := hbehind.consume hslices.tiles hcls
  rw [peekAdjacent, hbehind.stream_eq] at hcls hfurther ⊢
  have hlast := hslices.tiles.lt_last_of_cls_ne hcls
  have hfirst := hbehind.first_lt
  -- The token begins where the row ends.
  have htouches : stop = reader.stream.offset behind.position := by
    have hbefore : behind.position - 1 + 1 = behind.position := by omega
    rw [hbehind.stop_eq, hslices.tiles.touches _ (by omega), hbefore]
  have hstop : stop ≤ (reader.stream.get behind.position).span.stop := by
    rw [htouches]
    exact hslices.tiles.offset_le_stop hlast
  have htoken := Token.holds_of_isSlice (hslices.isSlice behind.position)
  have hspan : (reader.stream.get behind.position).span =
      ⟨stop, (reader.stream.get behind.position).span.stop⟩ := by
    rw [htouches]
    rfl
  rw [hspan] at htoken
  exact ⟨hfurther, Nat.le_trans hle hstop, hheld.append htoken hle hstop⟩

/-- The token behind a row is the first one that begins where the row ends or further on. -/
theorem Row.isLeast (h : reader.Row source first held stop behind)
    (hslices : reader.stream.Slices source) (hfirst : 0 < first) :
    IsLeast {position | stop ≤ reader.stream.offset position} behind.position := by
  obtain ⟨hbehind, -, -⟩ := h
  have hlt := hbehind.first_lt
  have hle := hbehind.position_le
  have hbefore : behind.position - 1 + 1 = behind.position := by omega
  refine ⟨?_, fun position hposition => ?_⟩
  · show stop ≤ reader.stream.offset behind.position
    rw [hbehind.stop_eq, hslices.tiles.touches _ (by omega), hbefore]
  · by_contra hearlier
    have hsolid := hslices.tiles.solid (behind.position - 1) (by omega) (by omega)
    have hmono : reader.stream.offset position ≤ reader.stream.offset (behind.position - 1) :=
      hslices.tiles.offset_mono (by omega) (by omega)
    have hposition' : stop ≤ reader.stream.offset position := hposition
    rw [hbehind.stop_eq] at hposition'
    omega

end Reader

-- ============================================================================
-- Matches
-- ============================================================================

theorem exists_of_isStringQuote {text : String} (h : isStringQuote text = true) :
    ∃ quote ∈ defaultQuotes, text = String.singleton quote := by
  unfold isStringQuote at h
  split at h
  · next quote htext =>
    refine ⟨quote, List.contains_iff_mem.1 h, ?_⟩
    rw [String.singleton_eq_ofList, ← htext, String.ofList_toList]
  · cases h

/-- What the text holds where a terminal is matched: the text of the match, which stands
    between two equal quotes if the match is a string. -/
def Terminal.Covers (terminal : Terminal) (matched : Matched) (held : String) : Prop :=
  if terminal = .ofCategory .string then
    ∃ quote ∈ defaultQuotes,
      held = String.singleton quote ++ matched.text ++ String.singleton quote
  else held = matched.text

/-- What a match says about the text is so, and the second reader stands right behind it.
    The mark at the end is matched where it stands. -/
structure Reader.Excerpts (reader : Reader) (source : String) (terminal : Terminal)
    (matched : Matched) (behind : Reader) : Prop where
  stream_eq : behind.stream = reader.stream
  skips : reader.Skips matched.position
  start_eq : reader.stream.offset matched.position = matched.span.start
  holds : ∃ held, terminal.Covers matched held ∧ matched.span.Holds source held
  ends : if terminal = .ofCategory .endOfInput then behind.position = reader.stream.last
    else IsLeast {position | matched.span.stop ≤ reader.stream.offset position} behind.position

namespace Reader

variable {reader behind : Reader} {source : String} {matched : Matched} {adjacent : Bool}

theorem Takes.excerpts {terminal : Terminal} {held : String} (h : reader.Takes matched behind)
    (hslices : reader.stream.Slices source) (hterminal : terminal ≠ .ofCategory .endOfInput)
    (hcls : matched.cls ≠ .ending) (hcovers : terminal.Covers matched held)
    (hrow : reader.Row source matched.position held matched.span.stop behind) :
    reader.Excerpts source terminal matched behind := by
  obtain ⟨hending, -⟩ | ⟨-, hpos, -⟩ := h.ends
  · exact absurd hending hcls
  · have hspan : matched.span = ⟨reader.stream.offset matched.position, matched.span.stop⟩ := by
      rw [← h.start_eq]
    refine ⟨h.stream_eq, h.skips, h.start_eq.symm, ⟨held, hcovers, ?_⟩, ?_⟩
    · rw [hspan]
      exact hrow.holds
    · rw [if_neg hterminal]
      exact hrow.isLeast hslices hpos

/-- A number that grows within a row of tokens. -/
theorem Row.of_grows {first : Nat} {number result : PartialNumber}
    (h : reader.Row source first number.text number.stop number.reader)
    (hslices : reader.stream.Slices source) (hgrows : number.Grows result) :
    reader.Row source first result.text result.stop result.reader := by
  induction hgrows with
  | refl => exact h
  | take _ hcls ih => exact ih.consume hslices hcls

theorem row_of_matchNumber (hslices : reader.stream.Slices source)
    (h : matchNumber adjacent reader = .ok (matched, behind)) :
    matched.cls = .number ∧
      reader.Row source matched.position matched.text matched.span.stop behind := by
  unfold matchNumber at h
  dsimp only at h
  split at h
  · next hword =>
    rw [Bool.and_eq_true] at hword
    have hfirst := reader.row_next hslices adjacent (cls_ne_of_beq hword.1 (by decide))
    split at h
    · cases h
    · next number hrest =>
      cases h
      exact ⟨rfl, hfirst.of_grows hslices (PartialNumber.grows_of_readRest hrest)⟩
  · cases h

theorem row_of_matchString (hslices : reader.stream.Slices source)
    (h : matchString adjacent reader = .ok (matched, behind)) :
    matched.cls = .string ∧ ∃ quote ∈ defaultQuotes, reader.Row source matched.position
      (String.singleton quote ++ matched.text ++ String.singleton quote) matched.span.stop
      behind := by
  unfold matchString at h
  dsimp only at h
  split at h
  · next hopen =>
    rw [Bool.and_eq_true] at hopen
    obtain ⟨quote, hquote, htext⟩ := exists_of_isStringQuote hopen.2
    have hfirst := reader.row_next hslices adjacent (cls_ne_of_beq hopen.1 (by decide))
    rw [htext] at h hfirst
    have hclosing {token : Token} (hclose : token.isSymbol (String.singleton quote) = true) :
        token.text = String.singleton quote := by
      rw [Token.isSymbol, Bool.and_eq_true] at hclose
      exact eq_of_beq hclose.2
    split at h
    · next hpayload =>
      split at h
      · next hclose =>
        cases h
        have hheld := hfirst.consume hslices (cls_ne_of_beq hpayload (by decide))
        have hwhole := hheld.consume hslices (cls_ne_ending_of_isSymbol hclose)
        rw [hclosing hclose] at hwhole
        exact ⟨rfl, quote, hquote, hwhole⟩
      · cases h
    · split at h
      · next hclose =>
        cases h
        have hwhole := hfirst.consume hslices (cls_ne_ending_of_isSymbol hclose)
        rw [hclosing hclose] at hwhole
        refine ⟨rfl, quote, hquote, ?_⟩
        show reader.Row source _ (String.singleton quote ++ "" ++ String.singleton quote) _ _
        rw [String.append_empty]
        exact hwhole
      · cases h
  · cases h

end Reader

namespace Terminal

variable {terminal : Terminal} {reader behind : Reader} {source : String} {matched : Matched}
  {adjacent : Bool}

/-- A terminal asks for the end of the input exactly if it holds for the mark there. -/
theorem eq_endOfInput_iff_of_holds {token : Token} (h : terminal.holds token = true) :
    terminal = .ofCategory .endOfInput ↔ token.cls = .ending := by
  constructor
  · rintro rfl
    exact eq_of_beq h
  · intro hcls
    unfold holds at h
    split at h <;> simp_all [isInteger]

theorem excerpts_of_matchSingle (hslices : reader.stream.Slices source)
    (hposition : reader.position ≤ reader.stream.last)
    (hstring : terminal ≠ .ofCategory .string)
    (h : terminal.matchSingle adjacent reader = .ok (matched, behind)) :
    reader.Excerpts source terminal matched behind := by
  have htakes := takes_of_matchSingle hslices.tiles hposition h
  have hcovers : terminal.Covers matched matched.text := by rw [Covers, if_neg hstring]
  unfold matchSingle at h
  dsimp only at h
  split at h
  · next hholds =>
    cases h
    have hcls := eq_endOfInput_iff_of_holds hholds
    by_cases hending : (reader.next adjacent).token.cls = .ending
    · have hterminal := hcls.2 hending
      have hslice : (reader.next adjacent).token.IsSlice source := by
        rw [Reader.next_eq]
        exact hslices.isSlice _
      obtain ⟨-, -, hlast⟩ | ⟨hne, -⟩ := htakes.ends
      · refine ⟨htakes.stream_eq, htakes.skips, htakes.start_eq.symm, ⟨_, hcovers, hslice⟩, ?_⟩
        rw [if_pos hterminal]
        exact hlast
      · exact absurd (classOf_of_holds hholds hending) hne
    · exact htakes.excerpts hslices (fun hterminal => hending (hcls.1 hterminal))
        (terminal.classOf_ne_ending hending) hcovers (reader.row_next hslices adjacent hending)
  · cases h

theorem excerpts_of_matchAt (hslices : reader.stream.Slices source)
    (hposition : reader.position ≤ reader.stream.last)
    (h : terminal.matchAt adjacent reader = .ok (matched, behind)) :
    reader.Excerpts source terminal matched behind := by
  have htakes := takes_of_matchAt hslices.tiles hposition h
  unfold matchAt at h
  split at h
  · obtain ⟨hcls, hrow⟩ := Reader.row_of_matchNumber hslices h
    exact htakes.excerpts hslices (by decide) (by rw [hcls]; decide) rfl hrow
  · obtain ⟨hcls, quote, hquote, hrow⟩ := Reader.row_of_matchString hslices h
    exact htakes.excerpts hslices (by decide) (by rw [hcls]; decide) ⟨quote, hquote, rfl⟩ hrow
  · next hstring => exact excerpts_of_matchSingle hslices hposition hstring h

end Terminal

/-- Matches are excerpts of the text.  Wherever a reader stands in a text, whatever its
    opinion on line ends is and whichever terminal it is asked for: a match begins where the
    token at its position does, it has the text that its span holds, nothing that matters
    was passed over in front of it, and the reader stands on the first token behind it.
    Whether the terminal is found or missed, the reader has not gone back nor beyond the mark
    at the end. -/
theorem Lexer.matches_are_excerpts (lexer : Lexer) (source : String) (position : Nat)
    (hposition : position ≤ (lexer.tokenize source).last) (skipLines : Bool) (terminal : Terminal)
    (adjacent : Bool) :
    let reader : Reader := ⟨lexer.tokenize source, position, skipLines⟩
    let scanned := terminal.scan adjacent reader
    terminal.matchAt adjacent reader = Scanner.outcome Prod.mk scanned ∧
    (∀ matched behind, terminal.matchAt adjacent reader = .ok (matched, behind) →
      reader.Excerpts source terminal matched behind) ∧
    (Scanner.behind scanned).stream = reader.stream ∧
    reader.position ≤ (Scanner.behind scanned).position ∧
    (Scanner.behind scanned).position ≤ reader.stream.last := by
  intro reader scanned
  have honward : reader.Onward (Scanner.behind scanned) :=
    terminal.keeps_onward_scan adjacent reader
  have hslices : reader.stream.Slices source := lexer.slices_tokenize source
  refine ⟨terminal.matchAt_eq_outcome adjacent reader, fun matched behind hmatch =>
    Terminal.excerpts_of_matchAt hslices hposition hmatch, honward.stream_eq,
    honward.position_le, ?_⟩
  calc (Scanner.behind scanned).position ≤ max reader.stream.last reader.position :=
        honward.le_last
    _ = reader.stream.last := Nat.max_eq_left hposition

/-- A string behind a space is found where its opening quote is, and it says so. -/
theorem quoted_word_is_excerpt :
    let source := "a 'b' c"
    let stream := Lexer.base.tokenize source
    2 ≤ stream.last ∧
    ∃ behind : Reader,
      Terminal.matchAt (.ofCategory .string) false ⟨stream, 2, true⟩ =
        .ok (⟨.string, "b", ⟨2, 5⟩, 3⟩, behind) ∧
      behind.position = 6 ∧ ∃ quote ∈ defaultQuotes,
        Span.Holds ⟨2, 5⟩ source (String.singleton quote ++ "b" ++ String.singleton quote) := by
  intro source stream
  have hposition : 2 ≤ stream.last := by decide +kernel
  obtain ⟨-, hexcerpts, -⟩ := Lexer.base.matches_are_excerpts source 2 hposition true
    (.ofCategory .string) false
  have hmatch : Terminal.matchAt (.ofCategory .string) false ⟨stream, 2, true⟩ =
      .ok (⟨.string, "b", ⟨2, 5⟩, 3⟩, ⟨stream, 6, true⟩) := by decide +kernel
  obtain ⟨held, ⟨quote, hquote, rfl⟩, hholds⟩ := (hexcerpts _ _ hmatch).holds
  exact ⟨hposition, _, hmatch, rfl, quote, hquote, hholds⟩

end TokenGrammar
