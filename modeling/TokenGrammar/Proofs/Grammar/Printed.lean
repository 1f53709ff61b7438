/-
  TokenGrammar.Proofs.Grammar.Printed

  What is printed for what a source derives: pieces of which no two run into each other
  (`Derives.row`, `IsFile.pieces`), with the literals of its items (`Derives.literals`,
  `IsFile.literals`), none of which is a quote by itself.
-/

import TokenGrammar.Proofs.Grammar.Relexing
import TokenGrammar.Proofs.Grammar.Soundness

namespace TokenGrammar

-- ============================================================================
-- Tokens of a source
-- ============================================================================

/-- What is known about a token of a grammar's source: names are words that are no tags,
    and comments are not empty and do not run over a line end. -/
structure Token.OfSource (token : Token) : Prop where
  name : token.cls = .identifier → IsWordText token.text.toList ∧
    Category.ofTag? token.text = none
  comment : token.cls = .comment → token.text.toList ≠ [] ∧
    ∀ c ∈ token.text.toList, isLineBreak c = false

theorem Grammar.ofSource_of_mem_tokenize {source : String} {token : Token}
    (h : token ∈ (sourceLexer.tokenize source).toList) : token.OfSource := by
  have htokens : (sourceLexer.tokenize source).toList = Cursor.beginning.mark .beginning ::
      (Cursor.beginning.place (sourceLexer.lexemes source.toList) ++
        [(Cursor.beginning.afterAll (sourceLexer.lexemes source.toList)).mark .ending]) := rfl
  rw [htokens, List.mem_cons, List.mem_append, List.mem_singleton] at h
  rcases h with rfl | h | rfl
  · exact ⟨nofun, nofun⟩
  · obtain ⟨lexeme, hmem, place, rfl⟩ := Cursor.exists_of_mem_place h
    have hsource := ofSource_of_mem_lexemes hmem
    have htext : (place.token lexeme).text.toList = lexeme.text := String.toList_ofList
    refine ⟨fun hcls => ?_, fun hcls => ?_⟩
    · rw [htext]
      exact hsource.name hcls
    · rw [htext]
      exact ⟨Lexer.ne_nil_of_mem_lexemes hmem, hsource.comment hcls⟩
  · exact ⟨nofun, nofun⟩

/-- Whether all tokens of some items come from a grammar's source. -/
def OfSource (items : List Item) : Prop := ∀ item ∈ items, ∀ token ∈ item.tokens, token.OfSource

theorem ofSource_sourceItems (source : String) : OfSource (sourceItems source) :=
  fun _ hitem _ htoken => Grammar.ofSource_of_mem_tokenize
    (Item.mem_of_mem_ofTokens (Item.mem_of_mem_joinLines hitem) htoken)

theorem ofSource_append {items more : List Item} :
    OfSource (items ++ more) ↔ OfSource items ∧ OfSource more :=
  List.forall_mem_append

theorem ofSource_cons {item : Item} {rest : List Item} :
    OfSource (item :: rest) ↔ (∀ token ∈ item.tokens, token.OfSource) ∧ OfSource rest :=
  List.forall_mem_cons

-- ============================================================================
-- Pieces of phrases
-- ============================================================================

/-- Suffixes in the order in which they are printed. -/
def Suffix.printed (suffixes : List Suffix) : List Suffix :=
  [.onceEach, .optional, .repeated, .fatal].filter suffixes.contains

namespace Primary

/-- The pieces of what an element is made of. -/
def pieces : Primary → List Piece
  | .terminal pattern => [pattern.piece]
  | .reference name => [.word name]
  | .alternation branches =>
    [.sign "[", .blank] ++ Node.branchPieces branches ++ [.blank, .sign "]"]

theorem pieces_node (primary : Primary) (adjacent : Bool) (suffixes : List Suffix) (span : Span)
    (h : .onceEach ∈ suffixes → primary.isAlternation = true) :
    (primary.node adjacent suffixes span).pieces =
      (if adjacent then [.sign "~"] else []) ++ primary.pieces ++
        (Suffix.printed suffixes).map Suffix.piece := by
  have hsuffixes : ∀ onceEach, onceEach = suffixes.contains .onceEach →
      Modifiers.suffixes ⟨adjacent, suffixes.contains .optional, suffixes.contains .repeated,
        suffixes.contains .fatal⟩ onceEach = Suffix.printed suffixes := by
    rintro _ rfl
    simp only [Modifiers.suffixes, Suffix.printed, List.filter_cons, List.filter_nil]
    cases suffixes.contains .onceEach <;> cases suffixes.contains .optional <;>
      cases suffixes.contains .repeated <;> cases suffixes.contains .fatal <;> rfl
  have honce : primary.isAlternation = false → false = suffixes.contains .onceEach := by
    intro hnot
    symm
    rw [List.contains_eq_mem, decide_eq_false_iff_not]
    intro hmem
    rw [h hmem] at hnot
    cases hnot
  cases primary with
  | terminal pattern => rw [node, Node.pieces, hsuffixes _ (honce rfl)]; rfl
  | reference name => rw [node, Node.pieces, hsuffixes _ (honce rfl)]; rfl
  | alternation branches => rw [node, Node.pieces_alternation, hsuffixes _ rfl]; rfl

end Primary

/-- The pieces of a phrase. -/
def Phrase.pieces : Phrase → List Piece
  | .primary made => made.pieces
  | .element node => node.pieces
  | .sequence nodes => Node.sequencePieces nodes
  | .branches tried => Node.branchPieces tried

namespace Piece

/-- Pieces none of which runs into the next one, with no blank at either end. -/
structure Row (pieces : List Piece) : Prop where
  ne_nil : pieces ≠ []
  chain : pieces.IsChain MayPrecede
  sound : ∀ piece ∈ pieces, piece.Sound
  head : ∀ piece ∈ pieces.head?, piece ≠ .blank
  last : ∀ piece ∈ pieces.getLast?, piece ≠ .blank

theorem row_singleton {piece : Piece} (h : piece.Sound) (hblank : piece ≠ .blank) :
    Row [piece] := by
  refine ⟨List.cons_ne_nil _ _, List.isChain_singleton piece, ?_, ?_, ?_⟩
  · exact fun other hother => List.mem_singleton.1 hother ▸ h
  · exact fun other hother => Option.some.inj hother ▸ hblank
  · exact fun other hother => Option.some.inj hother ▸ hblank

theorem row_sign {sign : String} (h : sign ∈ Grammar.signs) : Row [.sign sign] := by
  have hsound : (Piece.sign sign).Sound := h
  exact row_singleton hsound nofun

theorem Row.append {pieces more : List Piece} (h : Row pieces) (hmore : Row more)
    (hfits : ∀ piece ∈ pieces.getLast?, ∀ next ∈ more.head?, piece.MayPrecede next) :
    Row (pieces ++ more) := by
  refine ⟨by simp [h.ne_nil], List.isChain_append.2 ⟨h.chain, hmore.chain, hfits⟩, ?_, ?_, ?_⟩
  · exact List.forall_mem_append.2 ⟨h.sound, hmore.sound⟩
  · rw [List.head?_append_of_ne_nil _ h.ne_nil]
    exact h.head
  · rw [List.getLast?_append_of_ne_nil _ hmore.ne_nil]
    exact hmore.last

theorem mayPrecede_blank {piece : Piece} (h : piece ≠ .blank) : piece.MayPrecede .blank := by
  cases piece with
  | blank => exact h rfl
  | _ => trivial

theorem blank_mayPrecede {piece : Piece} (h : piece ≠ .blank) : Piece.blank.MayPrecede piece := by
  cases piece with
  | blank => exact h rfl
  | _ => trivial

theorem sign_mayPrecede (sign : String) (piece : Piece) : (Piece.sign sign).MayPrecede piece := by
  cases piece <;> trivial

theorem mayPrecede_sign (sign : String) (piece : Piece) : piece.MayPrecede (.sign sign) := by
  cases piece <;> trivial

/-- Rows may stand side by side with a blank between them. -/
theorem Row.spaced {pieces more : List Piece} (h : Row pieces) (hmore : Row more) :
    Row (pieces ++ [.blank] ++ more) := by
  have hblank : (pieces ++ [Piece.blank]).IsChain MayPrecede := by
    refine List.isChain_append.2 ⟨h.chain, List.isChain_singleton _, fun piece hpiece next hnext => ?_⟩
    rw [← Option.some.inj hnext]
    exact mayPrecede_blank (h.last piece hpiece)
  refine ⟨by simp, List.isChain_append.2 ⟨hblank, hmore.chain, ?_⟩, ?_, ?_, ?_⟩
  · intro piece hpiece next hnext
    rw [List.getLast?_concat] at hpiece
    rw [← Option.some.inj hpiece]
    exact blank_mayPrecede (hmore.head next hnext)
  · rw [List.append_assoc]
    refine List.forall_mem_append.2 ⟨h.sound, List.forall_mem_append.2 ⟨?_, hmore.sound⟩⟩
    intro piece hpiece
    rw [List.mem_singleton.1 hpiece]
    trivial
  · rw [List.append_assoc, List.head?_append_of_ne_nil _ h.ne_nil]
    exact h.head
  · rw [List.getLast?_append_of_ne_nil _ hmore.ne_nil]
    exact hmore.last

theorem Row.behind_sign {sign : String} (hsign : sign ∈ Grammar.signs) {pieces : List Piece}
    (h : Row pieces) : Row ([.sign sign] ++ pieces) := by
  refine (row_sign hsign).append h fun piece hpiece next _ => ?_
  rw [← Option.some.inj hpiece]
  exact sign_mayPrecede sign next

/-- Suffixes may stand behind anything. -/
theorem Row.append_suffixes {pieces : List Piece} (h : Row pieces) (suffixes : List Suffix) :
    Row (pieces ++ suffixes.map Suffix.piece) := by
  induction suffixes generalizing pieces with
  | nil =>
      rw [List.map_nil, List.append_nil]
      exact h
  | cons suffix rest ih =>
      have hsign : String.singleton suffix.sign ∈ Grammar.signs := by
        cases suffix <;> decide
      have hone : Row (pieces ++ [suffix.piece]) := by
        refine h.append (row_sign hsign) fun piece _ next hnext => ?_
        rw [← Option.some.inj hnext]
        exact mayPrecede_sign _ piece
      rw [List.map_cons, List.append_cons]
      exact ih hone

end Piece

theorem Derives.sequence_ne_nil {nodes : List Node} {items : List Item}
    (h : Derives (.sequence nodes) items) : nodes ≠ [] := by
  obtain ⟨⟨last, before, rfl, -⟩, -⟩ := h.isRead
  exact List.concat_ne_nil _ _

theorem Derives.branches_ne_nil {branches : List (List Node)} {items : List Item}
    (h : Derives (.branches branches) items) : branches ≠ [] := by
  obtain ⟨last, before, rfl, -⟩ := h.isRead
  exact List.concat_ne_nil _ _

/-- The pieces of a phrase that a source derives are a row. -/
theorem Derives.row {phrase : Phrase} {items : List Item} (h : Derives phrase items)
    (hsource : OfSource items) : Piece.Row phrase.pieces := by
  induction h with
  | @literal quote payload close hliteral =>
      have hpayload := (hsource _ List.mem_cons_self payload (by simp [Item.tokens])).comment
        (isLiteral_iff.1 hliteral).2.1
      refine Piece.row_singleton ⟨?_, fun c hc hline => ?_⟩
        (show Piece.literal _ ≠ .blank from nofun)
      · rw [String.toList_ofList]
        exact unescape_ne_nil hpayload.1
      · rw [String.toList_ofList] at hc
        rcases mem_of_mem_unescape hc with hc | hc | hc
        · rw [hpayload.2 c hc] at hline
          cases hline
        · exact hc
        · rw [hc] at hline
          exact absurd hline (by decide)
  | @category token category hcls htag =>
      have htags : ∀ category : Category, IsWordText category.tag.toList := by
        intro category
        apply Grammar.isWordText_of_mem_keywords
        rw [Grammar.mem_keywords, category.ofTag?_tag]
        rfl
      exact Piece.row_singleton (htags category) (show Piece.word _ ≠ .blank from nofun)
  | @reference token hcls =>
      have hname := (hsource _ List.mem_cons_self token (by simp [Item.tokens])).name hcls
      exact Piece.row_singleton hname.1 (show Piece.word _ ≠ .blank from nofun)
  | @alternation opening closing branches inner hopening hclosing hinner ih =>
      have hbranches := ih (ofSource_append.1 (ofSource_cons.1 hsource).2).1
      have hopen : Piece.Row [.sign "["] := Piece.row_sign (by decide)
      have hclose : Piece.Row [.sign "]"] := Piece.row_sign (by decide)
      have hrow := (hopen.spaced hbranches).spaced hclose
      rw [List.append_assoc _ [Piece.blank]] at hrow
      exact hrow
  | @element primary items whole tilde signs hprimary htilde hsigns honce hbracket hwhole ih =>
      rw [hwhole, ofSource_append, ofSource_append] at hsource
      have hmade := ih hsource.1.2
      rw [Phrase.pieces, Primary.pieces_node _ _ _ _ hbracket]
      apply Piece.Row.append_suffixes
      cases tilde with
      | none => exact hmade
      | some token => exact hmade.behind_sign (by decide)
  | @one node items hnode ih =>
      rw [Phrase.pieces, Node.sequencePieces_singleton]
      exact ih hsource
  | @more nodes node before items hnodes hnode ihnodes ihnode =>
      obtain ⟨hbefore, hitems⟩ := ofSource_append.1 hsource
      rw [Phrase.pieces, Node.sequencePieces_concat hnodes.sequence_ne_nil]
      exact (ihnodes hbefore).spaced (ihnode hitems)
  | @branch nodes items hnodes ih =>
      rw [Phrase.pieces, Node.branchPieces_singleton]
      exact ih hsource
  | @another branches nodes before items bar hbranches hbar hnodes ihbranches ihnodes =>
      obtain ⟨hbefore, hitems⟩ := ofSource_append.1 hsource
      have hmiddle : Piece.Row [.sign "|"] := Piece.row_sign (by decide)
      have hrow := ((ihbranches hbefore).spaced hmiddle).spaced (ihnodes (ofSource_cons.1 hitems).2)
      rw [Phrase.pieces, Node.branchPieces_concat hbranches.branches_ne_nil]
      simp only [List.append_assoc, List.cons_append, List.nil_append] at hrow ⊢
      exact hrow

/-- The pieces of a rule are a row. -/
theorem IsRule.row {items : List Item} {rule : Rule} (h : IsRule items rule)
    (hsource : OfSource items) : Piece.Row rule.pieces := by
  cases h with
  | @intro name define nodes body _ hname hdigit hdefine hbody hwhole =>
      rw [hwhole, ofSource_cons, ofSource_cons] at hsource
      have hsound := ((hsource.1 name List.mem_cons_self).name hname).1
      have hword : Piece.Row [.word name.text] :=
        Piece.row_singleton hsound (show Piece.word _ ≠ .blank from nofun)
      have hsign : Piece.Row [.sign ":="] := Piece.row_sign (by decide)
      have hend : Piece.Row [.lineEnd] :=
        Piece.row_singleton trivial (show Piece.lineEnd ≠ .blank from nofun)
      have hrow := ((hword.spaced hsign).spaced (hbody.row hsource.2.2)).append hend (by
        intro piece _ next hnext
        rw [← Option.some.inj hnext]
        cases piece <;> trivial)
      exact hrow

/-- The pieces of rules that a source defines do not run into each other. -/
theorem IsFile.pieces {items : List Item} {rules : List Rule} (h : IsFile items rules)
    (hsource : OfSource items) : (rules.flatMap Rule.pieces).IsChain Piece.MayPrecede ∧
      ∀ piece ∈ rules.flatMap Rule.pieces, piece.Sound := by
  induction h with
  | done => exact ⟨List.isChain_nil, fun _ h => nomatch h⟩
  | line hcls hrest ih => exact ih (ofSource_cons.1 hsource).2
  | @rule items rest rule rules next hrule hnext hrest ih =>
      obtain ⟨hitems, hbehind⟩ := ofSource_append.1 hsource
      have hrow := hrule.row hitems
      obtain ⟨hchain, hsound⟩ := ih hbehind
      rw [List.flatMap_cons]
      refine ⟨List.isChain_append.2 ⟨hrow.chain, hchain, fun piece hpiece other _ => ?_⟩,
        List.forall_mem_append.2 ⟨hrow.sound, hsound⟩⟩
      rw [Rule.pieces, List.getLast?_concat] at hpiece
      rw [← Option.some.inj hpiece]
      cases other <;> trivial

-- ============================================================================
-- Literals of a source
-- ============================================================================

/-- The text that a literal stands for. -/
def Item.literal? : Item → Option String
  | .single _ => none
  | .literal _ payload _ => some (String.ofList (unescape payload.text.toList))

theorem Item.literals_single (tokens : List Token) :
    (tokens.map Item.single).filterMap Item.literal? = [] := by
  rw [List.filterMap_map, List.filterMap_eq_nil_iff]
  exact fun _ _ => rfl

/-- The literals of a phrase are those of its items, in their order. -/
theorem Derives.literals {phrase : Phrase} {items : List Item} (h : Derives phrase items) :
    phrase.pieces.filterMap Piece.literal? = items.filterMap Item.literal? := by
  induction h with
  | literal => rfl
  | category => rfl
  | reference => rfl
  | alternation hopening hclosing hinner ih =>
      dsimp only [Phrase.pieces] at ih
      rw [Phrase.pieces, Primary.pieces]
      simp only [List.filterMap_append, List.filterMap_cons, List.filterMap_nil, Piece.literal?,
        Item.literal?, ih, List.nil_append]
  | @element primary items whole tilde signs hprimary htilde hsigns honce hbracket hwhole ih =>
      have hbefore : (if tilde.isSome then [Piece.sign "~"] else []).filterMap Piece.literal? = [] := by
        split <;> rfl
      have hbehind : ((Suffix.printed (signs.map Prod.fst)).map Suffix.piece).filterMap
          Piece.literal? = [] := by
        rw [List.filterMap_map, List.filterMap_eq_nil_iff]
        exact fun _ _ => rfl
      have hitems : (signs.map fun sign => Item.single sign.2).filterMap Item.literal? = [] := by
        rw [List.filterMap_map, List.filterMap_eq_nil_iff]
        exact fun _ _ => rfl
      rw [Phrase.pieces, Primary.pieces_node _ _ _ _ hbracket, hwhole]
      simp only [List.filterMap_append, hbefore, hbehind, hitems, Item.literals_single,
        List.nil_append, List.append_nil]
      exact ih
  | one hnode ih =>
      rw [Phrase.pieces, Node.sequencePieces_singleton]
      exact ih
  | more hnodes hnode ihnodes ihnode =>
      dsimp only [Phrase.pieces] at ihnodes ihnode
      rw [Phrase.pieces, Node.sequencePieces_concat hnodes.sequence_ne_nil]
      simp only [List.filterMap_append, List.filterMap_cons, List.filterMap_nil, Piece.literal?,
        ihnodes, ihnode, List.append_nil]
  | branch hnodes ih =>
      rw [Phrase.pieces, Node.branchPieces_singleton]
      exact ih
  | another hbranches hbar hnodes ihbranches ihnodes =>
      dsimp only [Phrase.pieces] at ihbranches ihnodes
      rw [Phrase.pieces, Node.branchPieces_concat hbranches.branches_ne_nil]
      simp only [List.filterMap_append, List.filterMap_cons, List.filterMap_nil, Piece.literal?,
        Item.literal?, ihbranches, ihnodes, List.append_nil]

/-- The literals of a file are those of its items, in their order. -/
theorem IsFile.literals {items : List Item} {rules : List Rule} (h : IsFile items rules) :
    (rules.flatMap Rule.pieces).filterMap Piece.literal? = items.filterMap Item.literal? := by
  induction h with
  | done => rfl
  | line hcls hrest ih => exact ih
  | rule hrule hnext hrest ih =>
      cases hrule with
      | intro hname hdigit hdefine hbody hwhole =>
          have hnodes := hbody.literals
          dsimp only [Phrase.pieces] at hnodes
          rw [hwhole, List.flatMap_cons, List.filterMap_append, ih, Rule.pieces]
          simp only [List.cons_append, List.filterMap_append, List.filterMap_cons,
            List.filterMap_nil, Piece.literal?, Item.literal?, hnodes, List.nil_append,
            List.append_nil]

-- ============================================================================
-- Signs of a source
-- ============================================================================

/-- No item of a phrase is a quote that is not part of a literal. -/
theorem Derives.openingQuote?_eq_none {phrase : Phrase} {items : List Item}
    (h : Derives phrase items) {token : Token} (hmem : .single token ∈ items) :
    openingQuote? token = none := by
  induction h with
  | literal => cases List.mem_singleton.1 hmem
  | category hcls htag =>
      cases List.mem_singleton.1 hmem
      exact openingQuote?_eq_none_of_cls (by rw [hcls]; decide)
  | reference hcls =>
      cases List.mem_singleton.1 hmem
      exact openingQuote?_eq_none_of_cls (by rw [hcls]; decide)
  | alternation hopening hclosing hinner ih =>
      simp only [List.mem_cons, List.mem_append, Item.single.injEq, List.not_mem_nil, or_false]
        at hmem
      rcases hmem with rfl | hmem | rfl
      · exact openingQuote?_eq_none_of_isSymbol hopening (by decide)
      · exact ih hmem
      · exact openingQuote?_eq_none_of_isSymbol hclosing (by decide)
  | element hprimary htilde hsigns honce hbracket hwhole ih =>
      rw [hwhole, List.mem_append, List.mem_append] at hmem
      rcases hmem with (hmem | hmem) | hmem
      · obtain ⟨tilde, htoken, heq⟩ := List.mem_map.1 hmem
        cases heq
        exact openingQuote?_eq_none_of_isSymbol (htilde token (Option.mem_toList.1 htoken)) (by decide)
      · exact ih hmem
      · obtain ⟨sign, hsign, heq⟩ := List.mem_map.1 hmem
        cases heq
        refine openingQuote?_eq_none_of_isSymbol (hsigns sign hsign) ?_
        cases sign.1 <;> decide
  | one hnode ih => exact ih hmem
  | more hnodes hnode ihnodes ihnode =>
      rcases List.mem_append.1 hmem with hmem | hmem
      · exact ihnodes hmem
      · exact ihnode hmem
  | branch hnodes ih => exact ih hmem
  | another hbranches hbar hnodes ihbranches ihnodes =>
      simp only [List.mem_cons, List.mem_append, Item.single.injEq] at hmem
      rcases hmem with hmem | rfl | hmem
      · exact ihbranches hmem
      · exact openingQuote?_eq_none_of_isSymbol hbar (by decide)
      · exact ihnodes hmem

theorem IsFile.openingQuote?_eq_none {items : List Item} {rules : List Rule}
    (h : IsFile items rules) {token : Token} (hmem : .single token ∈ items) :
    openingQuote? token = none := by
  induction h with
  | done hcls =>
      cases List.mem_singleton.1 hmem
      exact openingQuote?_eq_none_of_cls (by rw [hcls]; decide)
  | line hcls hrest ih =>
      rcases List.mem_cons.1 hmem with heq | hmem
      · cases heq
        exact openingQuote?_eq_none_of_cls (by rw [hcls]; decide)
      · exact ih hmem
  | rule hrule hnext hrest ih =>
      rcases List.mem_append.1 hmem with hmem | hmem
      · cases hrule with
        | intro hname hdigit hdefine hbody hwhole =>
            simp only [hwhole, List.mem_cons, Item.single.injEq] at hmem
            rcases hmem with rfl | rfl | hmem
            · exact openingQuote?_eq_none_of_cls (by rw [hname]; decide)
            · exact openingQuote?_eq_none_of_isSymbol hdefine (by decide)
            · exact hbody.openingQuote?_eq_none hmem
      · exact ih hmem

end TokenGrammar
