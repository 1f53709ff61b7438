/-
  TokenGrammar.Proofs.Lexer.Tiling

  The tokens of a text lie side by side: each begins where the one before it
  ends, none but the marks at both ends is empty, and the marks stand nowhere else.

  Main statement: this holds for every stream that a lexer makes
  (`Lexer.tiles_tokenize`), so places in the text are ordered as positions in the
  stream are (`TokenStream.Tiles.stop_le_offset`).
-/

import Mathlib.Data.List.Chain
import TokenGrammar.Lexer.Tokenize

namespace TokenGrammar

/-- An element of two lists, one behind the other, is in one of them. -/
theorem exists_of_append_eq {α : Type} {front back passed ahead : List α} {x : α}
    (h : front ++ back = passed ++ x :: ahead) :
    (∃ between, passed = front ++ between ∧ back = between ++ x :: ahead) ∨
      ∃ taken, front = passed ++ x :: taken ∧ ahead = taken ++ back := by
  rcases List.append_eq_append_iff.1 h with ⟨between, hpassed, hback⟩ | ⟨taken, hfront, hahead⟩
  · exact .inl ⟨between, hpassed, hback⟩
  · cases taken with
    | nil => exact .inl ⟨[], by rw [hfront, List.append_nil, List.append_nil], hahead.symm⟩
    | cons first taken =>
        obtain ⟨rfl, rfl⟩ := List.cons.inj hahead
        exact .inr ⟨taken, hfront, rfl⟩

-- ============================================================================
-- The classes of lexemes
-- ============================================================================

/-- The classes of the tokens that make up a text. -/
def TokenClass.ofText : List TokenClass :=
  [.line, .space, .comment, .symbol, .keyword, .identifier]

/-- All lexemes of a scan have a class of text. -/
def Scan.OfText (scan : Scan) : Prop := ∀ lexeme ∈ scan.lexemes, lexeme.cls ∈ TokenClass.ofText

namespace Scan

theorem ofText_single {cls : TokenClass} {taken rest : List Char} {endsLine : Bool}
    (h : cls ∈ TokenClass.ofText) : OfText ⟨[⟨cls, taken, endsLine⟩], rest⟩ := by
  intro lexeme hlexeme
  rw [List.mem_singleton.1 hlexeme]
  exact h

end Scan

theorem ofText_of_scanRun {cls : TokenClass} {p : Char → Bool} {text : List Char} {scan : Scan}
    (hcls : cls ∈ TokenClass.ofText) (h : scanRun cls p text = some scan) : scan.OfText := by
  cases text with
  | nil => cases h
  | cons c text =>
      simp only [scanRun, Option.ite_none_right_eq_some, Option.some.injEq] at h
      rw [← h.2]
      exact Scan.ofText_single hcls

theorem ofText_of_scanWord {cls : TokenClass} {mayFollow : List Char → List Char → Bool}
    {words : List String} {text : List Char} {scan : Scan} (hcls : cls ∈ TokenClass.ofText)
    (h : scanWord cls mayFollow words text = some scan) : scan.OfText := by
  obtain ⟨word, -, hword⟩ := List.exists_of_findSome?_eq_some h
  split at hword
  · cases hword
  · cases hword
  · split at hword
    · cases hword
      exact Scan.ofText_single hcls
    · cases hword

/-- A string is made of quotes and of what stands between them. -/
theorem mem_scanQuoted {quote : Char} {text : List Char} {lexeme : Lexeme}
    (h : lexeme ∈ (scanQuoted quote text).lexemes) :
    lexeme = ⟨.symbol, [quote], false⟩ ∨ lexeme ∈ payloadLexemes (payload quote text).1 := by
  unfold scanQuoted at h
  dsimp only at h
  split at h
  · split at h
    · rcases List.mem_cons.1 h with rfl | h
      · exact .inl rfl
      · rcases List.mem_append.1 h with h | h
        · exact .inr h
        · exact .inl (List.mem_singleton.1 h)
    · rcases List.mem_cons.1 h with rfl | h
      · exact .inl rfl
      · exact .inr h
  · rcases List.mem_cons.1 h with rfl | h
    · exact .inl rfl
    · exact .inr h

theorem cls_of_mem_payloadLexemes {held : List Char} {lexeme : Lexeme}
    (h : lexeme ∈ payloadLexemes held) : lexeme.cls = .comment := by
  unfold payloadLexemes at h
  split at h
  · cases h
  · rw [List.mem_singleton.1 h]

theorem ofText_scanQuoted (quote : Char) (text : List Char) : (scanQuoted quote text).OfText := by
  intro lexeme hlexeme
  rcases mem_scanQuoted hlexeme with rfl | hheld
  · exact List.mem_of_elem_eq_true rfl
  · rw [cls_of_mem_payloadLexemes hheld]
    decide

namespace Lexer

theorem ofText_scan (lexer : Lexer) (c : Char) (text : List Char) :
    (lexer.scan c text).OfText := by
  unfold scan
  cases hfound : lexer.rules.findSome? (· (c :: text)) with
  | none => exact Scan.ofText_single (by decide)
  | some found =>
      rw [Option.getD_some]
      obtain ⟨rule, hrule, h⟩ := List.exists_of_findSome?_eq_some hfound
      simp only [rules, List.mem_cons, List.not_mem_nil, or_false] at hrule
      rcases hrule with rfl | rfl | rfl | rfl | rfl | rfl | rfl | rfl
      · obtain ⟨_, _, rfl⟩ := Option.map_eq_some_iff.1 h
        exact Scan.ofText_single (by decide)
      · unfold scanContinuation at h
        split at h
        · obtain ⟨_, _, rfl⟩ := Option.map_eq_some_iff.1 h
          exact Scan.ofText_single (by decide)
        · cases h
      · exact ofText_of_scanRun (by decide) h
      · unfold scanComment at h
        split at h
        · split at h
          · exact ofText_of_scanRun (by decide) h
          · cases h
        · cases h
      · simp only [scanString, Option.ite_none_right_eq_some, Option.some.injEq] at h
        rw [← h.2]
        exact ofText_scanQuoted c text
      · exact ofText_of_scanWord (by decide) h
      · exact ofText_of_scanWord (by decide) h
      · exact ofText_of_scanRun (by decide) h

/-- Every lexeme of a text has a class of text. -/
theorem cls_of_mem_lexemes {lexer : Lexer} {text : List Char} {lexeme : Lexeme}
    (h : lexeme ∈ lexer.lexemes text) : lexeme.cls ∈ TokenClass.ofText := by
  fun_induction lexer.lexemes text with
  | case1 => cases h
  | case2 c text found ih =>
      rcases List.mem_append.1 h with h | h
      · exact lexer.ofText_scan c text lexeme h
      · exact ih h

end Lexer

-- ============================================================================
-- Places of tokens
-- ============================================================================

theorem byteLength_pos {cs : List Char} (h : cs ≠ []) : 0 < byteLength cs := by
  obtain ⟨c, rest, rfl⟩ := List.exists_cons_of_ne_nil h
  have hc := Char.utf8Size_pos c
  simp only [byteLength, List.foldr_cons]
  omega

/-- One token begins where another ends. -/
def Token.Touches (before after : Token) : Prop := before.span.stop = after.span.start

namespace Cursor

theorem isChain_place (lexemes : List Lexeme) (cursor : Cursor) (before : Token)
    (h : before.span.stop = cursor.offset) :
    (before :: (cursor.place lexemes ++ [(cursor.afterAll lexemes).mark .ending])).IsChain
      Token.Touches := by
  induction lexemes generalizing cursor before with
  | nil =>
      rw [place, List.nil_append, List.isChain_pair]
      exact h
  | cons lexeme rest ih =>
      rw [place, List.cons_append, List.isChain_cons_cons]
      exact ⟨h, ih (cursor.after lexeme) (cursor.token lexeme) rfl⟩

theorem exists_of_mem_place {lexemes : List Lexeme} {cursor : Cursor} {token : Token}
    (h : token ∈ cursor.place lexemes) :
    ∃ lexeme ∈ lexemes, ∃ place : Cursor, token = place.token lexeme := by
  induction lexemes generalizing cursor with
  | nil => cases h
  | cons lexeme rest ih =>
      rcases List.mem_cons.1 h with rfl | h
      · exact ⟨lexeme, List.mem_cons_self, cursor, rfl⟩
      · obtain ⟨other, hother, place, htoken⟩ := ih h
        exact ⟨other, List.mem_cons_of_mem lexeme hother, place, htoken⟩

end Cursor

-- ============================================================================
-- Streams
-- ============================================================================

namespace TokenStream

/-- The offset where the token at a position begins. -/
def offset (stream : TokenStream) (position : Nat) : Nat := (stream.get position).span.start

/-- Tokens that lie side by side between the two marks of a text. -/
structure Tiles (stream : TokenStream) : Prop where
  last_pos : 0 < stream.last
  touches : ∀ position, position < stream.last →
    (stream.get position).span.stop = stream.offset (position + 1)
  beginning : (stream.get 0).cls = .beginning
  stop_beginning : (stream.get 0).span.stop = stream.offset 0
  ofText : ∀ position, 0 < position → position < stream.last →
    (stream.get position).cls ∈ TokenClass.ofText
  solid : ∀ position, 0 < position → position < stream.last →
    stream.offset position < (stream.get position).span.stop
  ending : stream.ending.cls = .ending

namespace Tiles

variable {stream : TokenStream}

/-- The mark at the end is the only one of its class. -/
theorem last_le_of_ending (h : stream.Tiles) {position : Nat}
    (hcls : (stream.get position).cls = .ending) : stream.last ≤ position := by
  by_cases hlast : position < stream.last
  · exfalso
    by_cases hzero : position = 0
    · have hbeginning := h.beginning
      rw [← hzero, hcls] at hbeginning
      cases hbeginning
    · have htext := h.ofText position (by omega) hlast
      rw [hcls] at htext
      exact absurd htext (by decide)
  · omega

theorem cls_ne_ending_of_mem (h : stream.Tiles) {token : Token}
    (hmem : token ∈ stream.tokens.toList) : token.cls ≠ .ending := by
  intro hcls
  obtain ⟨position, hposition, rfl⟩ := List.getElem_of_mem hmem
  have hlast : position < stream.tokens.size := hposition
  have hget : stream.get position = stream.tokens.toList[position] := by
    rw [TokenStream.get, Array.getElem?_eq_getElem hlast, Option.getD_some, Array.getElem_toList]
  rw [← hget] at hcls
  exact absurd hlast (Nat.not_lt.2 (h.last_le_of_ending hcls))

theorem offset_le_stop (h : stream.Tiles) {position : Nat} (hlast : position < stream.last) :
    stream.offset position ≤ (stream.get position).span.stop := by
  by_cases hzero : position = 0
  · rw [hzero, h.stop_beginning]
  · exact Nat.le_of_lt (h.solid position (by omega) hlast)

theorem offset_mono (h : stream.Tiles) {first second : Nat} (hle : first ≤ second)
    (hlast : second ≤ stream.last) : stream.offset first ≤ stream.offset second := by
  induction hle with
  | refl => exact Nat.le_refl _
  | @step middle hle ih =>
      have hmiddle : middle < stream.last := hlast
      calc stream.offset first ≤ stream.offset middle := ih (by omega)
        _ ≤ (stream.get middle).span.stop := h.offset_le_stop hmiddle
        _ = stream.offset (middle + 1) := h.touches middle hmiddle

/-- A token ends before any token behind it begins. -/
theorem stop_le_offset (h : stream.Tiles) {first second : Nat} (hlt : first < second)
    (hlast : second ≤ stream.last) :
    (stream.get first).span.stop ≤ stream.offset second := by
  rw [h.touches first (by omega)]
  exact h.offset_mono hlt hlast

/-- A token that matters and is not the mark at the end is not empty. -/
theorem offset_lt_stop (h : stream.Tiles) {position : Nat} {skipLines : Bool}
    (hlast : position < stream.last)
    (hskip : (stream.get position).isSkippable skipLines = false) :
    stream.offset position < (stream.get position).span.stop := by
  apply h.solid position _ hlast
  apply Nat.pos_of_ne_zero
  rintro rfl
  rw [Token.isSkippable, h.beginning] at hskip
  cases hskip

end Tiles

theorem get_eq_getElem_toList {stream : TokenStream} {position : Nat}
    (h : position < stream.toList.length) : stream.get position = stream.toList[position] := by
  have hlength : stream.toList.length = stream.tokens.size + 1 := stream.length_toList
  by_cases hlast : position < stream.tokens.size
  · have hleft : position < stream.tokens.toList.length := hlast
    rw [get, Array.getElem?_eq_getElem hlast, Option.getD_some]
    simp only [toList]
    rw [List.getElem_append_left hleft, Array.getElem_toList]
  · have hposition : position = stream.tokens.toList.length := by
      rw [Array.length_toList]
      omega
    have hge : stream.last ≤ position := Nat.le_of_not_lt hlast
    rw [get_of_last_le hge]
    subst hposition
    simp only [toList, List.getElem_concat_length]

theorem get_mem_toList (stream : TokenStream) (position : Nat) :
    stream.get position ∈ stream.toList := by
  by_cases hposition : position < stream.toList.length
  · rw [get_eq_getElem_toList hposition]
    exact List.getElem_mem hposition
  · have hlast : stream.last ≤ position := by
      rw [length_toList, size] at hposition
      rw [last]
      omega
    rw [get_of_last_le hlast, toList]
    exact List.mem_append_right _ List.mem_cons_self

/-- A stream lies side by side if its tokens are the places of lexemes. -/
theorem tiles_of_toList_eq {stream : TokenStream} {lexemes : List Lexeme}
    (hlist : stream.toList = Cursor.beginning.mark .beginning ::
      (Cursor.beginning.place lexemes ++ [(Cursor.beginning.afterAll lexemes).mark .ending]))
    (hcls : ∀ lexeme ∈ lexemes, lexeme.cls ∈ TokenClass.ofText)
    (hne : ∀ lexeme ∈ lexemes, lexeme.text ≠ []) : stream.Tiles := by
  have hlength : stream.toList.length = stream.last + 1 := stream.length_toList
  have hplaced : stream.last = (Cursor.beginning.place lexemes).length + 1 := by
    rw [hlist] at hlength
    simp only [List.length_cons, List.length_append, List.length_nil] at hlength
    omega
  have hchain : stream.toList.IsChain Token.Touches := by
    rw [hlist]
    exact Cursor.isChain_place lexemes Cursor.beginning _ rfl
  have hzero : stream.get 0 = Cursor.beginning.mark .beginning := by
    rw [get_eq_getElem_toList (by omega)]
    simp only [hlist, List.getElem_cons_zero]
  have hend : stream.ending = (Cursor.beginning.afterAll lexemes).mark .ending := by
    have hlasts : stream.toList.getLast? = some stream.ending := by
      rw [toList, List.getLast?_concat]
    rw [hlist, ← List.cons_append, List.getLast?_concat] at hlasts
    exact (Option.some.inj hlasts).symm
  have hbetween : ∀ position, 0 < position → position < stream.last →
      ∃ lexeme ∈ lexemes, ∃ place : Cursor, stream.get position = place.token lexeme := by
    intro position hpos hposition
    obtain ⟨index, rfl⟩ : ∃ index, position = index + 1 := ⟨position - 1, by omega⟩
    have hindex : index < (Cursor.beginning.place lexemes).length := by omega
    have hget : stream.get (index + 1) = (Cursor.beginning.place lexemes)[index] := by
      rw [get_eq_getElem_toList (by omega)]
      simp only [hlist, List.getElem_cons_succ]
      rw [List.getElem_append_left hindex]
    rw [hget]
    exact Cursor.exists_of_mem_place (List.getElem_mem hindex)
  refine ⟨by omega, ?_, ?_, ?_, ?_, ?_, ?_⟩
  · intro position hposition
    rw [offset, get_eq_getElem_toList (by omega), get_eq_getElem_toList (by omega)]
    exact List.isChain_iff_getElem.1 hchain position (by omega)
  · rw [hzero]
    rfl
  · rw [offset, hzero]
    rfl
  · intro position hpos hposition
    obtain ⟨lexeme, hlexeme, place, htoken⟩ := hbetween position hpos hposition
    rw [htoken]
    exact hcls lexeme hlexeme
  · intro position hpos hposition
    obtain ⟨lexeme, hlexeme, place, htoken⟩ := hbetween position hpos hposition
    have hbytes := byteLength_pos (hne lexeme hlexeme)
    rw [offset, htoken]
    simp only [Cursor.token]
    omega
  · rw [hend]
    rfl

end TokenStream

/-- The tokens of a text lie side by side. -/
theorem Lexer.tiles_tokenize (lexer : Lexer) (text : String) : (lexer.tokenize text).Tiles :=
  TokenStream.tiles_of_toList_eq rfl (fun _ => Lexer.cls_of_mem_lexemes)
    (fun _ => Lexer.ne_nil_of_mem_lexemes)

/-- A token that is no mark is that of a lexeme. -/
theorem Lexer.exists_lexeme_of_get {lexer : Lexer} {input : String} {position : Nat}
    (h : ((lexer.tokenize input).get position).cls ∈ TokenClass.ofText) :
    ∃ lexeme ∈ lexer.lexemes input.toList, ∃ place : Cursor,
      (lexer.tokenize input).get position = place.token lexeme := by
  have hmem := (lexer.tokenize input).get_mem_toList position
  have hlist : (lexer.tokenize input).toList = Cursor.beginning.mark .beginning ::
      (Cursor.beginning.place (lexer.lexemes input.toList) ++
        [(lexer.tokenize input).ending]) := rfl
  rw [hlist, List.mem_cons, List.mem_append, List.mem_singleton] at hmem
  rcases hmem with hmark | hplaced | hmark
  · rw [hmark] at h
    exact absurd h (by decide)
  · exact Cursor.exists_of_mem_place hplaced
  · have hending : TokenClass.ending ∈ TokenClass.ofText := by
      rw [hmark] at h
      exact h
    exact absurd hending (by decide)

end TokenGrammar
