/-
  TokenGrammar.Proofs.Lexer.Slices

  The tokens of a text cut it up: each holds what the text has between the places where
  the token begins and ends, and both of these lie between characters.  So the texts of
  all tokens, one after the other, are the text.

  Main statement: this holds for every text and every lexer, whatever it has been told
  about its language, and every pass of the lexer leaves less of the text than there was
  (`Lexer.cutsUp_tokenize`).
-/

import Mathlib.Algebra.BigOperators.Group.List.Basic
import TokenGrammar.Proofs.Lexer.Tiling

namespace TokenGrammar

theorem byteLength_eq (cs : List Char) : byteLength cs = (String.ofList cs).utf8ByteSize := by
  induction cs with
  | nil => rfl
  | cons c cs ih =>
      have hcons : byteLength (c :: cs) = c.utf8Size + byteLength cs := rfl
      rw [hcons, ih, ← List.singleton_append, String.ofList_append, String.utf8ByteSize_append,
        ← String.singleton_eq_ofList, String.utf8ByteSize_singleton]

theorem byteLength_toList (text : String) : byteLength text.toList = text.utf8ByteSize := by
  rw [byteLength_eq, String.ofList_toList]

theorem byteLength_append (cs ds : List Char) :
    byteLength (cs ++ ds) = byteLength cs + byteLength ds := by
  rw [byteLength_eq, byteLength_eq, byteLength_eq, String.ofList_append,
    String.utf8ByteSize_append]

-- ============================================================================
-- Slices
-- ============================================================================

/-- A token holds what a text has between two places that lie between characters, and
    says that it begins and ends there. -/
def Token.IsSlice (token : Token) (source : String) : Prop :=
  ∃ first last : source.Pos, first.offset.byteIdx = token.span.start ∧
    last.offset.byteIdx = token.span.stop ∧ String.extract first last = token.text

/-- What stands in the middle of a text is a slice of it. -/
theorem Token.isSlice_of_eq_append {token : Token} {source before after : String}
    (hsource : source = before ++ token.text ++ after)
    (hstart : token.span.start = before.utf8ByteSize)
    (hstop : token.span.stop = before.utf8ByteSize + token.text.utf8ByteSize) :
    token.IsSlice source := by
  subst hsource
  have hfirst : before.rawEndPos.IsValid (before ++ token.text ++ after) :=
    String.Pos.Raw.isValid_iff_exists_append.2 ⟨before, token.text ++ after,
      String.append_assoc, rfl⟩
  have hlast : (before ++ token.text).rawEndPos.IsValid (before ++ token.text ++ after) :=
    String.Pos.Raw.isValid_iff_exists_append.2 ⟨before ++ token.text, after, rfl, rfl⟩
  refine ⟨⟨_, hfirst⟩, ⟨_, hlast⟩, hstart.symm, ?_, ?_⟩
  · rw [hstop]
    exact String.utf8ByteSize_append
  · rw [← String.toByteArray_inj]
    show (before ++ token.text ++ after).toByteArray.extract (before.utf8ByteSize + 0)
      (before ++ token.text).utf8ByteSize = token.text.toByteArray
    rw [String.append_assoc, String.toByteArray_append, String.utf8ByteSize_append,
      ByteArray.extract_append_size_add' String.size_toByteArray.symm, String.toByteArray_append]
    exact ByteArray.extract_append_eq_left String.size_toByteArray.symm

namespace Cursor

theorem length_place (cursor : Cursor) (lexemes : List Lexeme) :
    (cursor.place lexemes).length = lexemes.length := by
  induction lexemes generalizing cursor with
  | nil => rfl
  | cons lexeme rest ih => exact congrArg (· + 1) (ih (cursor.after lexeme))

theorem offset_afterAll (cursor : Cursor) (lexemes : List Lexeme) :
    (cursor.afterAll lexemes).offset =
      cursor.offset + byteLength (lexemes.flatMap Lexeme.text) := by
  induction lexemes generalizing cursor with
  | nil => rfl
  | cons lexeme rest ih =>
      have hrest : cursor.afterAll (lexeme :: rest) = (cursor.after lexeme).afterAll rest := rfl
      rw [hrest, ih, List.flatMap_cons, byteLength_append, ← Nat.add_assoc]
      rfl

theorem afterAll_append (cursor : Cursor) (lexemes more : List Lexeme) :
    cursor.afterAll (lexemes ++ more) = (cursor.afterAll lexemes).afterAll more :=
  List.foldl_append

theorem place_append (cursor : Cursor) (lexemes more : List Lexeme) :
    cursor.place (lexemes ++ more) =
      cursor.place lexemes ++ (cursor.afterAll lexemes).place more := by
  induction lexemes generalizing cursor with
  | nil => rfl
  | cons lexeme rest ih =>
      rw [List.cons_append, place, place, ih, List.cons_append]
      rfl

/-- The tokens of some lexemes, and the mark behind them. -/
def placeAll (cursor : Cursor) (lexemes : List Lexeme) : List Token :=
  cursor.place lexemes ++ [(cursor.afterAll lexemes).mark .ending]

theorem placeAll_cons (cursor : Cursor) (lexeme : Lexeme) (rest : List Lexeme) :
    cursor.placeAll (lexeme :: rest) = cursor.token lexeme :: (cursor.after lexeme).placeAll rest :=
  rfl

theorem placeAll_append (cursor : Cursor) (lexemes more : List Lexeme) :
    cursor.placeAll (lexemes ++ more) =
      cursor.place lexemes ++ (cursor.afterAll lexemes).placeAll more := by
  rw [placeAll, place_append, afterAll_append, List.append_assoc]
  rfl

/-- Tokens do not begin before the first one does, and what begins there is on its line. -/
theorem le_start_of_mem_placeAll {cursor : Cursor} {lexemes : List Lexeme}
    (hne : ∀ lexeme ∈ lexemes, lexeme.text ≠ []) {token : Token}
    (h : token ∈ cursor.placeAll lexemes) :
    cursor.offset ≤ token.span.start ∧
      (token.span.start = cursor.offset → token.line = cursor.line) := by
  induction lexemes generalizing cursor with
  | nil =>
      obtain rfl := List.mem_singleton.1 h
      exact ⟨Nat.le_refl _, fun _ => rfl⟩
  | cons lexeme rest ih =>
      obtain ⟨hlexeme, hrest⟩ := List.forall_mem_cons.1 hne
      have hpos := byteLength_pos hlexeme
      rw [placeAll_cons] at h
      rcases List.mem_cons.1 h with rfl | h
      · exact ⟨Nat.le_refl _, fun _ => rfl⟩
      · have hle : cursor.offset + byteLength lexeme.text ≤ token.span.start := (ih hrest h).1
        exact ⟨by omega, fun hstart => by omega⟩

theorem join_place (cursor : Cursor) (lexemes : List Lexeme) :
    String.join ((cursor.place lexemes).map Token.text) =
      String.ofList (lexemes.flatMap Lexeme.text) := by
  induction lexemes generalizing cursor with
  | nil => rfl
  | cons lexeme rest ih =>
      rw [place, List.map_cons, String.join_cons, ih, List.flatMap_cons, String.ofList_append]
      rfl

/-- The tokens of lexemes that stand in the middle of a text are slices of it. -/
theorem isSlice_of_mem_place {lexemes : List Lexeme} {source before after : String}
    {cursor : Cursor}
    (hsource : source = before ++ String.ofList (lexemes.flatMap Lexeme.text) ++ after)
    (hoffset : cursor.offset = before.utf8ByteSize) {token : Token}
    (hmem : token ∈ cursor.place lexemes) : token.IsSlice source := by
  induction lexemes generalizing cursor before with
  | nil => cases hmem
  | cons lexeme rest ih =>
      rw [List.flatMap_cons, String.ofList_append, ← String.append_assoc] at hsource
      rcases List.mem_cons.1 hmem with rfl | hrest
      · have hstop : (cursor.token lexeme).span.stop =
            before.utf8ByteSize + (cursor.token lexeme).text.utf8ByteSize := by
          rw [← hoffset]
          exact congrArg (cursor.offset + ·) (byteLength_eq lexeme.text)
        rw [String.append_assoc] at hsource
        exact Token.isSlice_of_eq_append hsource hoffset hstop
      · apply ih hsource _ hrest
        rw [String.utf8ByteSize_append, ← byteLength_eq, ← hoffset]
        rfl

end Cursor

-- ============================================================================
-- Streams
-- ============================================================================

/-- The tokens of a stream cut up a text: the pieces `between` the two marks at its
    ends, none of which is empty, follow each other from its beginning to its end. -/
structure TokenStream.CutsUp (stream : TokenStream) (source : String) (between : List Token) :
    Prop where
  toList_eq : stream.toList = ⟨.beginning, "", ⟨0, 0⟩, 1, 1⟩ :: (between ++ [stream.ending])
  ending_cls : stream.ending.cls = .ending
  ending_text : stream.ending.text = ""
  ending_span : stream.ending.span = ⟨source.utf8ByteSize, source.utf8ByteSize⟩
  ofText : ∀ token ∈ between, token.cls ∈ TokenClass.ofText
  solid : ∀ token ∈ between, token.text ≠ "" ∧ token.span.start < token.span.stop
  touches : stream.toList.IsChain Token.Touches
  isSlice : ∀ token ∈ stream.toList, token.IsSlice source
  join_eq : String.join (stream.toList.map Token.text) = source

namespace Lexer

/-- The tokens of a text, the marks included. -/
theorem toList_tokenize (lexer : Lexer) (text : String) :
    (lexer.tokenize text).toList =
      Cursor.beginning.mark .beginning :: Cursor.beginning.placeAll (lexer.lexemes text.toList) :=
  rfl

/-- The token behind as many lexemes is that of the next one. -/
theorem get_tokenize {lexer : Lexer} {text : String} {passed ahead : List Lexeme} {lexeme : Lexeme}
    (h : lexer.lexemes text.toList = passed ++ lexeme :: ahead) :
    (lexer.tokenize text).get (passed.length + 1) =
      (Cursor.beginning.afterAll passed).token lexeme := by
  have htokens : (lexer.tokenize text).toList[passed.length + 1]? =
      some ((Cursor.beginning.afterAll passed).token lexeme) := by
    rw [toList_tokenize, h, Cursor.placeAll_append, Cursor.placeAll_cons, List.getElem?_cons_succ,
      ← Cursor.length_place Cursor.beginning passed, List.getElem?_append_right (Nat.le_refl _),
      Nat.sub_self, List.getElem?_cons_zero]
  obtain ⟨hlt, hget⟩ := List.getElem?_eq_some_iff.1 htokens
  rw [TokenStream.get_eq_getElem_toList hlt, hget]

/-- There are no more lexemes than characters. -/
theorem length_lexemes_le (lexer : Lexer) (text : List Char) :
    (lexer.lexemes text).length ≤ text.length := by
  have hpos : ∀ length ∈ (lexer.lexemes text).map (·.text.length), 1 ≤ length := by
    intro length hmem
    obtain ⟨lexeme, hlexeme, rfl⟩ := List.mem_map.1 hmem
    exact List.length_pos_iff.2 (ne_nil_of_mem_lexemes hlexeme)
  calc (lexer.lexemes text).length
      = ((lexer.lexemes text).map (·.text.length)).length := (List.length_map _).symm
    _ ≤ ((lexer.lexemes text).map (·.text.length)).sum := List.length_le_sum_of_one_le _ hpos
    _ = ((lexer.lexemes text).flatMap Lexeme.text).length := List.length_flatMap.symm
    _ = text.length := congrArg List.length (lexer.flatMap_lexemes text)

/-- The pieces of a text are the places of its lexemes. -/
theorem cutsUp_place (lexer : Lexer) (source : String) :
    (lexer.tokenize source).CutsUp source
      (Cursor.beginning.place (lexer.lexemes source.toList)) := by
  let lexemes := lexer.lexemes source.toList
  have hwhole : String.ofList (lexemes.flatMap Lexeme.text) = source := by
    rw [Lexer.flatMap_lexemes, String.ofList_toList]
  have hlist : (lexer.tokenize source).toList = Cursor.beginning.mark .beginning ::
      (Cursor.beginning.place lexemes ++ [(lexer.tokenize source).ending]) := rfl
  have hend : (Cursor.beginning.afterAll lexemes).offset = source.utf8ByteSize := by
    rw [Cursor.offset_afterAll, byteLength_eq, hwhole]
    exact Nat.zero_add _
  refine ⟨hlist, rfl, rfl, ?_, ?_, ?_, ?_, ?_, ?_⟩
  · show Span.mk (Cursor.beginning.afterAll lexemes).offset _ = _
    rw [hend]
  · intro token htoken
    obtain ⟨lexeme, hlexeme, place, rfl⟩ := Cursor.exists_of_mem_place htoken
    exact Lexer.cls_of_mem_lexemes hlexeme
  · intro token htoken
    obtain ⟨lexeme, hlexeme, place, rfl⟩ := Cursor.exists_of_mem_place htoken
    have hne := Lexer.ne_nil_of_mem_lexemes hlexeme
    exact ⟨fun hempty => hne (String.ofList_eq_empty_iff.1 hempty),
      Nat.lt_add_of_pos_right (byteLength_pos hne)⟩
  · rw [hlist]
    exact Cursor.isChain_place lexemes Cursor.beginning _ rfl
  · intro token htoken
    rw [hlist, List.mem_cons, List.mem_append, List.mem_singleton] at htoken
    rcases htoken with rfl | hbetween | rfl
    · have hsource : source = "" ++ "" ++ source := by simp
      exact Token.isSlice_of_eq_append hsource rfl rfl
    · have hsource : source = "" ++ String.ofList (lexemes.flatMap Lexeme.text) ++ "" := by
        simp [hwhole]
      exact Cursor.isSlice_of_mem_place hsource rfl hbetween
    · have hsource : source = source ++ "" ++ "" := by simp
      exact Token.isSlice_of_eq_append hsource hend hend
  · rw [hlist, List.map_cons, List.map_append, String.join_cons, String.join_append,
      Cursor.join_place, hwhole]
    show "" ++ (source ++ String.join [""]) = source
    simp

end Lexer

/-- Whatever a lexer has been told about a language, the tokens of any text cut it up,
    and there are at most as many of them between the marks as the text has characters:
    every pass of the lexer leaves less of the text than there was. -/
theorem Lexer.cutsUp_tokenize (lexer : Lexer) (source : String) :
    (∃ between, (lexer.tokenize source).CutsUp source between ∧
      between.length ≤ source.length) ∧
    ∀ c rest, (lexer.scan c rest).rest.length < (c :: rest).length := by
  refine ⟨⟨_, lexer.cutsUp_place source, ?_⟩, fun c rest => ?_⟩
  · rw [Cursor.length_place, ← String.length_toList]
    exact lexer.length_lexemes_le source.toList
  · exact (lexer.takes_scan c rest).length_rest_lt

end TokenGrammar
