/-
  TokenGrammar.Proofs.Grammar.RoundTrip

  Printing the rules of a grammar and compiling what was printed.

  Main statement: this gives the same rules, places aside, if and only if every literal
  is plain (`Grammar.compile_shown`).
-/

import Mathlib.Data.List.Chain
import TokenGrammar.Proofs.Grammar.Printed

namespace TokenGrammar

-- ============================================================================
-- Line ends
-- ============================================================================

theorem joinLines_single {token : Token} (h : token.cls ≠ .line) (depth : Nat) (rest : List Item) :
    joinLines depth (.single token :: rest) =
      .single token :: joinLines ((Item.single token).depthBehind depth) rest := by
  have hline : (Item.single token).isLine = false := beq_eq_false_iff_ne.2 h
  simp [joinLines, hline]

theorem joinLines_single_of_isSymbol {token : Token} {text : String}
    (h : token.isSymbol text = true) (hopen : text ≠ "[") (hclose : text ≠ "]") (depth : Nat)
    (rest : List Item) :
    joinLines depth (.single token :: rest) = .single token :: joinLines depth rest := by
  rw [joinLines_single (by rw [(Token.isSymbol_iff.1 h).1]; decide),
    Item.depthBehind_of_isSymbol h hopen hclose]

theorem joinLines_single_of_cls {token : Token} (h : token.cls ≠ .symbol) (hline : token.cls ≠ .line)
    (depth : Nat) (rest : List Item) :
    joinLines depth (.single token :: rest) = .single token :: joinLines depth rest := by
  rw [joinLines_single hline, Item.depthBehind_of_cls_ne h]

theorem joinLines_signs {signs : List (Suffix × Token)}
    (h : ∀ sign ∈ signs, sign.2.isSymbol (String.singleton sign.1.sign) = true) (depth : Nat)
    (rest : List Item) :
    joinLines depth (signs.map (.single ·.2) ++ rest) =
      signs.map (.single ·.2) ++ joinLines depth rest := by
  induction signs with
  | nil => rfl
  | cons sign signs ih =>
      obtain ⟨hsign, hrest⟩ := List.forall_mem_cons.1 h
      rw [List.map_cons, List.cons_append, joinLines_single_of_isSymbol hsign
        (by cases sign.1 <;> decide) (by cases sign.1 <;> decide), ih hrest, List.cons_append]

/-- All items of a phrase count, and its brackets are balanced. -/
theorem Derives.joinLines_append {phrase : Phrase} {items : List Item} (h : Derives phrase items)
    (depth : Nat) (rest : List Item) :
    joinLines depth (items ++ rest) = items ++ joinLines depth rest := by
  induction h generalizing depth rest with
  | literal => rfl
  | category hcls htag =>
      exact joinLines_single_of_cls (by rw [hcls]; decide) (by rw [hcls]; decide) depth rest
  | reference hcls =>
      exact joinLines_single_of_cls (by rw [hcls]; decide) (by rw [hcls]; decide) depth rest
  | alternation hopening hclosing hinner ih =>
      have hopen := (Token.isSymbol_iff.1 hopening).1
      have hclose := (Token.isSymbol_iff.1 hclosing).1
      rw [List.cons_append, joinLines_single (by rw [hopen]; decide), Item.depthBehind, hopening,
        List.append_assoc, ih, List.singleton_append, joinLines_single (by rw [hclose]; decide),
        Item.depthBehind, hclosing, Token.isSymbol_eq_false_of_ne hclosing (by decide)]
      simp
  | @element primary items whole tilde signs hprimary htilde hsigns honce hbracket hwhole ih =>
      have hbehind := joinLines_signs hsigns
      rw [hwhole, List.append_assoc, List.append_assoc, List.append_assoc, List.append_assoc]
      cases tilde with
      | none => rw [Option.toList_none, List.map_nil, List.nil_append, List.nil_append, ih, hbehind]
      | some token =>
          rw [Option.toList_some, List.map_singleton, List.singleton_append,
            joinLines_single_of_isSymbol (htilde token rfl) (by decide) (by decide), ih, hbehind]
          rfl
  | one hnode ih => exact ih depth rest
  | more hnodes hnode ihnodes ihnode => rw [List.append_assoc, ihnodes, ihnode, List.append_assoc]
  | branch hnodes ih => exact ih depth rest
  | another hbranches hbar hnodes ihbranches ihnodes =>
      rw [List.append_assoc, ihbranches, List.cons_append,
        joinLines_single_of_isSymbol hbar (by decide) (by decide), ihnodes, List.append_assoc,
        List.cons_append]

/-- All items of a file count. -/
theorem IsFile.joinLines_eq {items : List Item} {rules : List Rule} (h : IsFile items rules) :
    joinLines 0 items = items := by
  induction h with
  | done hcls =>
      exact joinLines_single_of_cls (by rw [hcls]; decide) (by rw [hcls]; decide) 0 []
  | @line token rest rules hcls hrest ih =>
      have hdepth : (Item.single token).depthBehind 0 = 0 :=
        Item.depthBehind_of_cls_ne (by rw [hcls]; decide) 0
      simp [joinLines, hdepth, ih]
  | rule hrule hnext hrest ih =>
      cases hrule with
      | intro hname hdigit hdefine hbody hwhole =>
          rw [hwhole, List.cons_append, List.cons_append,
            joinLines_single_of_cls (by rw [hname]; decide) (by rw [hname]; decide),
            joinLines_single_of_isSymbol hdefine (by decide) (by decide), hbody.joinLines_append, ih]

-- ============================================================================
-- Phrases again
-- ============================================================================

namespace Primary

/-- What an element is made of without the places of the elements inside it. -/
def forgetSpans : Primary → Primary
  | .terminal pattern => .terminal pattern
  | .reference name => .reference name
  | .alternation branches => .alternation (branches.map (·.map Node.forgetSpans))

theorem forgetSpans_node (primary : Primary) (adjacent : Bool) (suffixes : List Suffix)
    (span : Span) :
    (primary.node adjacent suffixes span).forgetSpans =
      primary.forgetSpans.node adjacent suffixes ⟨0, 0⟩ := by
  cases primary with
  | terminal pattern => rfl
  | reference name => rfl
  | alternation branches =>
      rw [node, Node.forgetSpans, Node.forgetSpansOfBranches_eq_map]
      rfl

theorem isAlternation_forgetSpans (primary : Primary) :
    primary.forgetSpans.isAlternation = primary.isAlternation := by
  cases primary <;> rfl

theorem node_congr (primary : Primary) (adjacent : Bool) {suffixes others : List Suffix}
    (h : ∀ suffix, suffixes.contains suffix = others.contains suffix) (span : Span) :
    primary.node adjacent suffixes span = primary.node adjacent others span := by
  unfold node
  simp only [h]

end Primary

theorem Suffix.contains_printed (suffixes : List Suffix) (suffix : Suffix) :
    (printed suffixes).contains suffix = suffixes.contains suffix := by
  rw [printed, List.contains_eq_mem, List.contains_eq_mem]
  congr 1
  rw [List.mem_filter, List.contains_iff_mem, eq_iff_iff, and_iff_right_iff_imp]
  intro _
  cases suffix <;> decide

theorem Suffix.nodup_printed (suffixes : List Suffix) : (printed suffixes).Nodup :=
  List.Pairwise.filter _ (by decide : [Suffix.onceEach, .optional, .repeated, .fatal].Nodup)

/-- Whether some items stand for a phrase with elements at any places. -/
def Phrase.IsDerivedAgain (items : List Item) : Phrase → Prop
  | .primary made => ∃ again, Derives (.primary again) items ∧
      again.forgetSpans = made.forgetSpans
  | .element node => ∃ again, Derives (.element again) items ∧
      again.forgetSpans = node.forgetSpans
  | .sequence nodes => ∃ again, Derives (.sequence again) items ∧
      again.map Node.forgetSpans = nodes.map Node.forgetSpans
  | .branches tried => ∃ again, Derives (.branches again) items ∧
      again.map (·.map Node.forgetSpans) = tried.map (·.map Node.forgetSpans)

theorem Cursor.isSymbol_token (cursor : Cursor) (text : String) :
    (cursor.token ⟨.symbol, text.toList, false⟩).isSymbol text = true :=
  Token.isSymbol_iff.2 ⟨rfl, String.ofList_toList⟩

theorem Piece.allItems_tilde (cursor : Cursor) (adjacent : Bool) :
    ∃ mark : Option Token, (∀ token ∈ mark, token.isSymbol "~" = true) ∧
      mark.isSome = adjacent ∧
      allItems cursor (if adjacent then [.sign "~"] else []) = mark.toList.map .single := by
  cases adjacent with
  | false =>
      refine ⟨none, ?_, rfl, rfl⟩
      intro token htoken
      cases htoken
  | true =>
      refine ⟨some (cursor.token ⟨.symbol, "~".toList, false⟩), ?_, rfl, rfl⟩
      intro token htoken
      rw [← Option.some.inj htoken]
      exact cursor.isSymbol_token "~"

theorem Piece.allItems_suffixes (cursor : Cursor) (suffixes : List Suffix) :
    ∃ signs : List (Suffix × Token), signs.map Prod.fst = suffixes ∧
      (∀ sign ∈ signs, sign.2.isSymbol (String.singleton sign.1.sign) = true) ∧
      allItems cursor (suffixes.map Suffix.piece) = signs.map (.single ·.2) := by
  induction suffixes generalizing cursor with
  | nil =>
      refine ⟨[], rfl, ?_, rfl⟩
      intro sign hsign
      cases hsign
  | cons suffix rest ih =>
      obtain ⟨signs, hfst, hsigns, hitems⟩ := ih (cursor.afterAll suffix.piece.lexemes)
      refine ⟨(suffix, cursor.token ⟨.symbol, (String.singleton suffix.sign).toList, false⟩) :: signs,
        by rw [List.map_cons, hfst],
        List.forall_mem_cons.2 ⟨cursor.isSymbol_token (String.singleton suffix.sign), hsigns⟩, ?_⟩
      rw [List.map_cons, allItems, hitems]
      rfl

/-- What is between the quotes of a plain literal stands for itself. -/
theorem IsPlain.unescape_eq {text : String} (h : IsPlain text) :
    String.ofList (unescape (String.ofList text.toList).toList) = text := by
  rw [String.ofList_toList, unescape_eq_self h.backslash, String.ofList_toList]

theorem wordClass_tag (category : Category) : wordClass category.tag = .keyword := by
  rw [wordClass, category.ofTag?_tag]
  rfl

theorem wordClass_of_ofTag?_eq_none {word : String} (h : Category.ofTag? word = none) :
    wordClass word = .identifier := by
  rw [wordClass, h]
  rfl

namespace Phrase

theorem isDerivedAgain_literal {text : String} (h : IsPlain text) (cursor : Cursor) :
    (Phrase.primary (.terminal (.literal text))).IsDerivedAgain
      (Piece.allItems cursor [.literal text]) := by
  have hagain := Derives.literal (Piece.isLiteral_place (quoteOf_mem text) text.toList cursor
    (cursor.after ⟨.symbol, [quoteOf text], false⟩)
    ((cursor.after ⟨.symbol, [quoteOf text], false⟩).after ⟨.comment, text.toList, false⟩))
  refine ⟨_, hagain, ?_⟩
  show Primary.terminal (.literal (String.ofList (unescape (String.ofList text.toList).toList))) = _
  rw [h.unescape_eq]
  rfl

theorem isDerivedAgain_category (category : Category) (cursor : Cursor) :
    (Phrase.primary (.terminal (.ofCategory category))).IsDerivedAgain
      (Piece.allItems cursor [.word category.tag]) := by
  have htag : Category.ofTag? (String.ofList category.tag.toList) = some category := by
    rw [String.ofList_toList, category.ofTag?_tag]
  have hagain : Derives (.primary (.terminal (.ofCategory category)))
      [.single (cursor.token ⟨wordClass category.tag, category.tag.toList, false⟩)] :=
    .category (wordClass_tag category) htag
  exact ⟨_, hagain, rfl⟩

theorem isDerivedAgain_reference {name : String} (h : Category.ofTag? name = none)
    (cursor : Cursor) :
    (Phrase.primary (.reference name)).IsDerivedAgain (Piece.allItems cursor [.word name]) := by
  let word := cursor.token ⟨wordClass name, name.toList, false⟩
  have hword : word.cls = .identifier := wordClass_of_ofTag?_eq_none h
  have hagain : Derives (.primary (.reference word.text)) [.single word] := .reference hword
  refine ⟨_, hagain, ?_⟩
  rw [show word.text = name from String.ofList_toList]

/-- An element comes back if what it is made of does. -/
theorem isDerivedAgain_element {primary : Primary} {adjacent : Bool} {suffixes : List Suffix}
    {span : Span} (hbracket : .onceEach ∈ suffixes → primary.isAlternation = true)
    (h : ∀ cursor, (Phrase.primary primary).IsDerivedAgain (Piece.allItems cursor primary.pieces))
    (cursor : Cursor) :
    (Phrase.element (primary.node adjacent suffixes span)).IsDerivedAgain
      (Piece.allItems cursor (primary.node adjacent suffixes span).pieces) := by
  rw [Primary.pieces_node _ _ _ _ hbracket, Piece.allItems_append, Piece.allItems_append]
  obtain ⟨mark, hmark, rfl, hitems⟩ := Piece.allItems_tilde cursor adjacent
  obtain ⟨again, hagain, hsame⟩ :=
    h (cursor.afterAll (List.flatMap Piece.lexemes (if mark.isSome then [.sign "~"] else [])))
  obtain ⟨behind, hfst, hbehind, hbehindItems⟩ := Piece.allItems_suffixes
    (cursor.afterAll (List.flatMap Piece.lexemes
      ((if mark.isSome then [.sign "~"] else []) ++ primary.pieces)))
    (Suffix.printed suffixes)
  have honce : (behind.map Prod.fst).Nodup := by
    rw [hfst]
    exact Suffix.nodup_printed suffixes
  have hbracketAgain : .onceEach ∈ behind.map Prod.fst → again.isAlternation = true := by
    intro hmem
    rw [hfst, ← List.contains_iff_mem, Suffix.contains_printed, List.contains_iff_mem] at hmem
    rw [← again.isAlternation_forgetSpans, hsame, primary.isAlternation_forgetSpans]
    exact hbracket hmem
  have helement := Derives.element hagain hmark hbehind honce hbracketAgain rfl
  rw [hitems, hbehindItems]
  refine ⟨_, helement, ?_⟩
  rw [Primary.forgetSpans_node, Primary.forgetSpans_node, hsame, hfst,
    Primary.node_congr _ _ (Suffix.contains_printed _)]

end Phrase

/-- The items of the pieces of a phrase derive the phrase again, if its literals are
    plain. -/
theorem Derives.isDerivedAgain {phrase : Phrase} {items : List Item} (h : Derives phrase items)
    (hsource : OfSource items) (hplain : ∀ piece ∈ phrase.pieces, piece.Plain) (cursor : Cursor) :
    phrase.IsDerivedAgain (Piece.allItems cursor phrase.pieces) := by
  induction h generalizing cursor with
  | literal hliteral => exact Phrase.isDerivedAgain_literal (hplain _ List.mem_cons_self) cursor
  | category hcls htag => exact Phrase.isDerivedAgain_category _ cursor
  | @reference token hcls =>
      have hname := (hsource _ List.mem_cons_self token List.mem_cons_self).name hcls
      exact Phrase.isDerivedAgain_reference hname.2 cursor
  | @alternation opening closing branches inner hopening hclosing hinner ih =>
      rw [Phrase.pieces, Primary.pieces] at hplain ⊢
      have hinside : ∀ piece ∈ Node.branchPieces branches, piece.Plain := fun piece hmem =>
        hplain piece (by simp [hmem])
      have hinnerSource := (ofSource_append.1 (ofSource_cons.1 hsource).2).1
      rw [Piece.allItems_append, Piece.allItems_append]
      obtain ⟨again, hagain, hsame⟩ := ih hinnerSource hinside
        (cursor.afterAll (List.flatMap Piece.lexemes [.sign "[", .blank]))
      refine ⟨.alternation again, .alternation (cursor.isSymbol_token "[")
        (Cursor.isSymbol_token _ "]") hagain, ?_⟩
      rw [Primary.forgetSpans, Primary.forgetSpans, hsame]
  | element hprimary htilde hsigns honce hbracket hwhole ih =>
      rw [Phrase.pieces, Primary.pieces_node _ _ _ _ hbracket] at hplain
      rw [hwhole, ofSource_append, ofSource_append] at hsource
      have hmade := (List.forall_mem_append.1 (List.forall_mem_append.1 hplain).1).2
      exact Phrase.isDerivedAgain_element hbracket (ih hsource.1.2 hmade) cursor
  | @one node items hnode ih =>
      rw [Phrase.pieces, Node.sequencePieces_singleton] at hplain ⊢
      obtain ⟨again, hagain, hsame⟩ := ih hsource hplain cursor
      exact ⟨[again], .one hagain, by rw [List.map_singleton, List.map_singleton, hsame]⟩
  | @more nodes node before items hnodes hnode ihnodes ihnode =>
      rw [Phrase.pieces, Node.sequencePieces_concat hnodes.sequence_ne_nil] at hplain ⊢
      obtain ⟨hbefore, hlast⟩ := List.forall_mem_append.1 hplain
      obtain ⟨hbeforeSource, hlastSource⟩ := ofSource_append.1 hsource
      rw [Piece.allItems_append, Piece.allItems_append]
      obtain ⟨again, hagain, hsame⟩ := ihnodes hbeforeSource (List.forall_mem_append.1 hbefore).1 cursor
      obtain ⟨last, hlastAgain, hlastSame⟩ := ihnode hlastSource hlast
        (cursor.afterAll ((Node.sequencePieces nodes ++ [Piece.blank]).flatMap Piece.lexemes))
      have hblank : ∀ cursor, Piece.allItems cursor [Piece.blank] = [] := fun _ => rfl
      rw [hblank, List.append_nil]
      refine ⟨again ++ [last], .more hagain hlastAgain, ?_⟩
      rw [List.map_append, List.map_append, hsame, List.map_singleton, List.map_singleton, hlastSame]
  | @branch nodes items hnodes ih =>
      rw [Phrase.pieces, Node.branchPieces_singleton] at hplain ⊢
      obtain ⟨again, hagain, hsame⟩ := ih hsource hplain cursor
      exact ⟨[again], .branch hagain, by rw [List.map_singleton, List.map_singleton, hsame]⟩
  | @another branches nodes before items bar hbranches hbar hnodes ihbranches ihnodes =>
      rw [Phrase.pieces, Node.branchPieces_concat hbranches.branches_ne_nil] at hplain ⊢
      obtain ⟨hbefore, hlast⟩ := List.forall_mem_append.1 hplain
      obtain ⟨hbeforeSource, hlastSource⟩ := ofSource_append.1 hsource
      rw [Piece.allItems_append, Piece.allItems_append, List.append_assoc]
      obtain ⟨again, hagain, hsame⟩ :=
        ihbranches hbeforeSource (List.forall_mem_append.1 hbefore).1 cursor
      obtain ⟨last, hlastAgain, hlastSame⟩ := ihnodes (ofSource_cons.1 hlastSource).2 hlast
        (cursor.afterAll ((Node.branchPieces branches ++
          [Piece.blank, Piece.sign "|", Piece.blank]).flatMap Piece.lexemes))
      refine ⟨again ++ [last], .another hagain (Cursor.isSymbol_token _ "|") hlastAgain, ?_⟩
      rw [List.map_append, List.map_append, hsame, List.map_singleton, List.map_singleton, hlastSame]

/-- The items of the pieces of a rule stand for the rule again. -/
theorem IsRule.isRuleAgain {items : List Item} {rule : Rule} (h : IsRule items rule)
    (hsource : OfSource items) (hplain : ∀ piece ∈ rule.pieces, piece.Plain) (cursor : Cursor) :
    ∃ (again : Rule) (body : List Item) (next : Token), IsRule body again ∧
      again.forgetSpans = rule.forgetSpans ∧ next.cls = .line ∧
      Piece.allItems cursor rule.pieces = body ++ [.single next] := by
  cases h with
  | @intro name define nodes body _ hname hdigit hdefine hbody hwhole =>
      rw [hwhole, ofSource_cons, ofSource_cons] at hsource
      rw [Rule.pieces] at hplain ⊢
      have hnodes := (List.forall_mem_append.1 (List.forall_mem_append.1 hplain).1).2
      obtain ⟨again, hagain, hsame⟩ := hbody.isDerivedAgain hsource.2.2 hnodes
        (cursor.afterAll (List.flatMap Piece.lexemes [.word name.text, .blank, .sign ":=", .blank]))
      have hclass : wordClass name.text = .identifier :=
        wordClass_of_ofTag?_eq_none ((hsource.1 name List.mem_cons_self).name hname).2
      let word := cursor.token ⟨wordClass name.text, name.text.toList, false⟩
      have hword : word.cls = .identifier := hclass
      have htext : word.text = name.text := String.ofList_toList
      let sign := ((cursor.afterAll (Piece.word name.text).lexemes).afterAll
        Piece.blank.lexemes).token ⟨.symbol, ":=".toList, false⟩
      have hsign : sign.isSymbol ":=" = true := Cursor.isSymbol_token _ ":="
      have hrule := IsRule.intro hword (by rw [htext]; exact hdigit) hsign hagain rfl
      have hend : ∀ cursor : Cursor, (cursor.token ⟨.line, ['\n'], true⟩).cls = .line := fun _ => rfl
      rw [Piece.allItems_append, Piece.allItems_append]
      refine ⟨_, _, _, hrule, ?_, hend _, rfl⟩
      rw [Rule.forgetSpans, Rule.forgetSpans, hsame, htext]

/-- The items of the pieces of some rules are a file with these rules again. -/
theorem IsFile.isFileAgain {items : List Item} {rules : List Rule} (h : IsFile items rules)
    (hsource : OfSource items) (hplain : ∀ piece ∈ rules.flatMap Rule.pieces, piece.Plain)
    (cursor : Cursor) {ending : Token} (hending : ending.cls = .ending) :
    ∃ again, IsFile (Piece.allItems cursor (rules.flatMap Rule.pieces) ++ [.single ending]) again ∧
      again.map Rule.forgetSpans = rules.map Rule.forgetSpans := by
  induction h generalizing cursor with
  | done => exact ⟨[], .done hending, rfl⟩
  | line hcls hrest ih => exact ih (ofSource_cons.1 hsource).2 hplain cursor
  | @rule items rest rule rules next hrule hnext hrest ih =>
      obtain ⟨hitems, hbehind⟩ := ofSource_append.1 hsource
      rw [List.flatMap_cons] at hplain ⊢
      obtain ⟨hrulePlain, hrestPlain⟩ := List.forall_mem_append.1 hplain
      obtain ⟨again, body, line, hagain, hsame, hline, heq⟩ :=
        hrule.isRuleAgain hitems hrulePlain cursor
      obtain ⟨others, hothers, hothersSame⟩ := ih hbehind hrestPlain
        (cursor.afterAll (rule.pieces.flatMap Piece.lexemes))
      have hfile := IsFile.rule hagain (.inl hline) (.line hline hothers)
      refine ⟨again :: others, ?_, by rw [List.map_cons, List.map_cons, hsame, hothersSame]⟩
      rw [Piece.allItems_append, heq, List.append_assoc, List.append_assoc]
      exact hfile

-- ============================================================================
-- Rules again
-- ============================================================================

theorem Rule.names_eq_of_forgetSpans_eq {rules again : List Rule}
    (h : again.map Rule.forgetSpans = rules.map Rule.forgetSpans) :
    again.map Rule.name = rules.map Rule.name := by
  have hname := congrArg (List.map Rule.name) h
  rw [List.map_map, List.map_map] at hname
  exact hname

/-- The mark at the beginning of a source is no item. -/
theorem ofTokens_tokenize (source : String) : ∃ ending : Token, ending.cls = .ending ∧
    Item.ofTokens (Grammar.sourceLexer.tokenize source).toList = Item.ofTokens
      (Cursor.beginning.place (Grammar.sourceLexer.lexemes source.toList) ++ [ending]) := by
  have hmark : openingQuote? (Cursor.beginning.mark .beginning) = none := rfl
  exact ⟨_, rfl, Item.ofTokens_cons_of_openingQuote? hmark _⟩

/-- Rules with plain literals only come back when they are printed. -/
theorem RuleTable.isFile_shown {source : String} {table : RuleTable}
    (h : IsFile (sourceItems source) table.rules)
    (hplain : ∀ text ∈ table.literals, IsPlain text) :
    ∃ again : RuleTable, IsFile (sourceItems table.shown) again.rules ∧
      again.rules.map Rule.forgetSpans = table.rules.map Rule.forgetSpans := by
  have hsource := ofSource_sourceItems source
  have hpieces : ∀ piece ∈ table.rules.flatMap Rule.pieces, piece.Plain := by
    intro piece hmem
    cases piece with
    | literal text => exact hplain text (RuleTable.mem_literals_iff.2 hmem)
    | _ => trivial
  obtain ⟨hchain, hsound⟩ := h.pieces hsource
  have hlexemes := Piece.lexemes_flatMap hchain hsound hpieces
    fun piece _ => piece.endsBefore_nil
  rw [List.append_nil, ← table.toList_shown] at hlexemes
  obtain ⟨ending, hending, hitems⟩ := ofTokens_tokenize table.shown
  have hlast : Item.ofTokens [ending] = [.single ending] :=
    (List.append_nil _).trans (Item.ofToken_of_ending hending)
  rw [hlexemes, Lexer.lexemes_nil, List.append_nil, Piece.ofTokens_place hsound, hlast] at hitems
  obtain ⟨again, hagain, hsame⟩ := h.isFileAgain hsource hpieces .beginning hending
  have hnames : (again.map Rule.name).Nodup := by
    rw [Rule.names_eq_of_forgetSpans_eq hsame]
    exact table.nodup_names
  refine ⟨⟨again, hnames⟩, ?_, hsame⟩
  rw [sourceItems, hitems, hagain.joinLines_eq]
  exact hagain

-- ============================================================================
-- Literals again
-- ============================================================================

/-- A quote that is no item by itself begins a literal. -/
theorem Item.exists_literal {quote : Token} {tail : List Token}
    (hquote : (openingQuote? quote).isSome = true)
    (h : ∀ token, .single token ∈ ofTokens (quote :: tail) → openingQuote? token = none) :
    ∃ payload close behind, tail = payload :: close :: behind ∧
      isLiteral quote payload close = true ∧
      ofTokens (quote :: tail) = .literal quote payload close :: ofTokens behind := by
  by_contra hnot
  have hitems : ofTokens (quote :: tail) = ofToken quote ++ ofTokens tail := by
    apply ofTokens_cons
    intro payload close behind htail
    apply Bool.eq_false_iff.2
    intro hliteral
    refine hnot ⟨payload, close, behind, htail, hliteral, ?_⟩
    rw [htail, ofTokens, if_pos hliteral]
  have hsingle : ofToken quote = [.single quote] := by
    rw [ofToken, Token.isSkippable_eq_false false]
    · rfl
    · rw [(quote_of_openingQuote? hquote).1]
      decide
  have hnone := h quote (by rw [hitems, hsingle]; exact List.mem_cons_self)
  rw [hnone] at hquote
  cases hquote

/-- A comment and a sign stand behind a quote only if the string is closed and not empty;
    then the comment is what it holds. -/
theorem payload_of_closed {quote : Char} {text : List Char} {cursor : Cursor}
    {ending first second : Token} {behind : List Token} (hending : ending.cls = .ending)
    (htail : cursor.place ((scanQuoted quote text).lexemes.tail ++
      Grammar.sourceLexer.lexemes (scanQuoted quote text).rest) ++ [ending] =
        first :: second :: behind)
    (hfirst : first.cls = .comment) (hsecond : second.cls = .symbol) :
    ∃ held left, payload quote text = (held, quote :: left) ∧ first.text = String.ofList held := by
  have hstops := payload_stops quote text
  rcases hpayload : payload quote text with ⟨held, left⟩
  rw [hpayload] at hstops
  rw [scanQuoted, hpayload] at htail
  dsimp only at hstops
  cases left with
  | nil =>
      exfalso
      dsimp only [List.tail_cons] at htail
      rw [Lexer.lexemes_nil, payloadLexemes] at htail
      split at htail
      · cases htail
      · cases htail
        rw [hending] at hsecond
        cases hsecond
  | cons c left =>
      dsimp only at htail
      by_cases hc : c = quote
      · rw [if_pos hc, List.tail_cons, payloadLexemes] at htail
        split at htail
        · obtain ⟨rfl, -⟩ := List.cons.inj htail
          cases hfirst
        · obtain ⟨rfl, -⟩ := List.cons.inj htail
          exact ⟨held, left, by rw [hc], rfl⟩
      · exfalso
        obtain ⟨lexeme, more, hlexemes, hcls⟩ :=
          Grammar.lexemes_lineBreak ((hstops c rfl).resolve_right hc) left
        rw [if_neg hc, List.tail_cons, hlexemes, payloadLexemes] at htail
        split at htail
        · obtain ⟨rfl, -⟩ := List.cons.inj htail
          rw [show lexeme.cls = .comment from hfirst] at hcls
          exact absurd hcls (by decide)
        · obtain ⟨-, htail⟩ := List.cons.inj htail
          obtain ⟨rfl, -⟩ := List.cons.inj htail
          rw [show lexeme.cls = .symbol from hsecond] at hcls
          exact absurd hcls (by decide)

/-- If the first literal of some items is the one that their text begins with, it is
    plain. -/
theorem isPlain_of_items {text : String} {rest : List Char} {cursor : Cursor} {ending : Token}
    {items : List Item} (hending : ending.cls = .ending)
    (hitems : items = Item.ofTokens (cursor.place (Grammar.sourceLexer.lexemes
      (quoteOf text :: (text.toList ++ quoteOf text :: rest))) ++ [ending]))
    (hquotes : ∀ token, .single token ∈ items → openingQuote? token = none)
    (hliteral : (items.filterMap Item.literal?).head? = some text) : IsPlain text := by
  have hquote := quoteOf_mem text
  obtain ⟨tail, hscan⟩ : ∃ tail,
      (scanQuoted (quoteOf text) (text.toList ++ quoteOf text :: rest)).lexemes =
        ⟨.symbol, [quoteOf text], false⟩ :: tail := by
    unfold scanQuoted
    dsimp only
    split
    · split
      · exact ⟨_, rfl⟩
      · exact ⟨_, rfl⟩
    · exact ⟨_, rfl⟩
  rw [Grammar.lexemes_quoted hquote, hscan, List.cons_append, Cursor.place, List.cons_append] at hitems
  have hopening := Piece.openingQuote?_mark hquote cursor
  obtain ⟨held', close, behind, htail, hisLiteral, heq⟩ :=
    Item.exists_literal (by rw [hopening]; rfl) (hitems ▸ hquotes)
  obtain ⟨-, hcomment, hclose⟩ := isLiteral_iff.1 hisLiteral
  obtain ⟨held, left, hpayload, htext⟩ := payload_of_closed hending (by rw [hscan]; exact htail)
    hcomment (Token.isSymbol_iff.1 hclose).1
  rw [hitems, heq, List.filterMap_cons, Item.literal?, List.head?_cons, htext,
    String.toList_ofList] at hliteral
  apply isPlain_of_payload hpayload
  rw [← Option.some.inj hliteral, String.toList_ofList]

theorem Piece.literals_items {piece : Piece} (h : piece.Plain) (cursor : Cursor) :
    (piece.items cursor).filterMap Item.literal? = [piece].filterMap Piece.literal? := by
  cases piece with
  | literal text =>
      show [String.ofList (unescape (String.ofList text.toList).toList)] = [text]
      rw [IsPlain.unescape_eq h]
  | _ => rfl

/-- Pieces are plain if their text has the literals that it was printed for, and no quote
    is left over.  The induction is on the pieces: as long as those so far are plain, the
    items of the rest are those of its text. -/
theorem Piece.plain_of_items {pieces : List Piece} {cursor : Cursor} {ending : Token}
    {items : List Item} (hending : ending.cls = .ending) (hchain : pieces.IsChain MayPrecede)
    (hsound : ∀ piece ∈ pieces, piece.Sound)
    (hitems : items = Item.ofTokens
      (cursor.place (Grammar.sourceLexer.lexemes (pieces.flatMap chars)) ++ [ending]))
    (hquotes : ∀ token, .single token ∈ items → openingQuote? token = none)
    (hliterals : items.filterMap Item.literal? = pieces.filterMap Piece.literal?) :
    ∀ piece ∈ pieces, piece.Plain := by
  induction pieces generalizing cursor items with
  | nil => exact fun _ h => nomatch h
  | cons piece rest ih =>
      obtain ⟨hpieceSound, hrestSound⟩ := List.forall_mem_cons.1 hsound
      have hplain : piece.Plain := by
        cases piece with
        | literal text =>
            have htext : (Piece.literal text :: rest).flatMap chars =
                quoteOf text :: (text.toList ++ quoteOf text :: rest.flatMap chars) := by
              rw [List.flatMap_cons, chars, List.cons_append, List.append_assoc]
              rfl
            rw [htext] at hitems
            exact isPlain_of_items hending hitems hquotes (by rw [hliterals]; rfl)
        | _ => trivial
      have hends : piece.EndsBefore (rest.flatMap chars) := by
        cases rest with
        | nil => exact piece.endsBefore_nil
        | cons next rest =>
            exact (List.isChain_cons_cons.1 hchain).1.endsBefore
              (hrestSound next List.mem_cons_self) _
      rw [List.flatMap_cons, lexemes_append hpieceSound hplain hends, Cursor.place_append,
        List.append_assoc, ofTokens_place_append hpieceSound] at hitems
      subst hitems
      have hcons : (piece :: rest).filterMap Piece.literal? =
          [piece].filterMap Piece.literal? ++ rest.filterMap Piece.literal? := by
        rw [← List.singleton_append, List.filterMap_append]
      rw [List.filterMap_append, literals_items hplain, hcons, List.append_cancel_left_eq]
        at hliterals
      have hrest := ih hchain.tail hrestSound rfl
        (fun token hmem => hquotes token (List.mem_append_right _ hmem)) hliterals
      exact List.forall_mem_cons.2 ⟨hplain, hrest⟩

theorem Item.literals_joinLines (depth : Nat) (items : List Item) :
    (joinLines depth items).filterMap Item.literal? = items.filterMap Item.literal? := by
  induction items generalizing depth with
  | nil => rfl
  | cons item rest ih =>
      rw [joinLines]
      split
      · next hline =>
        cases item with
        | single token =>
            rw [ih]
            rfl
        | literal => cases hline
      · rw [List.filterMap_cons, List.filterMap_cons, ih]

/-- All items but line ends count anywhere. -/
theorem Item.mem_joinLines {depth : Nat} {items : List Item} {item : Item}
    (hline : item.isLine = false) (h : item ∈ items) : item ∈ joinLines depth items := by
  induction items generalizing depth with
  | nil => exact h
  | cons first rest ih =>
      rw [joinLines]
      rcases List.mem_cons.1 h with rfl | h
      · rw [hline]
        exact List.mem_cons_self
      · split
        · exact ih h
        · exact List.mem_cons_of_mem first (ih h)

/-- Rules only come back when they are printed if all their literals are plain. -/
theorem RuleTable.isPlain_of_shown {source : String} {table again : RuleTable}
    (h : IsFile (sourceItems source) table.rules)
    (hagain : IsFile (sourceItems table.shown) again.rules)
    (hsame : again.rules.map Rule.forgetSpans = table.rules.map Rule.forgetSpans) :
    ∀ text ∈ table.literals, IsPlain text := by
  obtain ⟨hchain, hsound⟩ := h.pieces (ofSource_sourceItems source)
  have hliterals := hagain.literals
  rw [Rule.pieces_of_forgetSpans_eq hsame, sourceItems, Item.literals_joinLines] at hliterals
  obtain ⟨ending, hending, hitems⟩ := ofTokens_tokenize table.shown
  have hquotes : ∀ token,
      .single token ∈ Item.ofTokens (Grammar.sourceLexer.tokenize table.shown).toList →
        openingQuote? token = none := by
    intro token hmem
    by_cases hline : token.cls = .line
    · exact openingQuote?_eq_none_of_cls (by rw [hline]; decide)
    · have hnot : (Item.single token).isLine = false := beq_eq_false_iff_ne.2 hline
      exact hagain.openingQuote?_eq_none (Item.mem_joinLines hnot hmem)
  rw [table.toList_shown] at hitems
  have hpieces := Piece.plain_of_items hending hchain hsound hitems hquotes hliterals.symm
  exact fun text hmem => hpieces (.literal text) (RuleTable.mem_literals_iff.1 hmem)

-- ============================================================================
-- Grammars again
-- ============================================================================

namespace Grammar

/-- Whether two grammars have the same rules but for the places of these and of their
    elements. -/
def SameRules (grammar again : Grammar) : Prop :=
  again.rules.rules.map Rule.forgetSpans = grammar.rules.rules.map Rule.forgetSpans

/-- Printing the rules of a grammar and compiling what was printed gives the same rules,
    symbols and keywords if and only if no literal holds a backslash, a line feed, or both
    quotes.  If one does, what was printed does not compile or means other rules. -/
theorem compile_shown (source : String) (grammar : Grammar) (h : compile source = .ok grammar) :
    ((∃ again, compile grammar.rules.shown = .ok again ∧ grammar.SameRules again ∧
        again.symbols = grammar.symbols ∧ again.keywords = grammar.keywords) ↔
      ∀ text ∈ grammar.rules.literals, IsPlain text) ∧
    ((∃ text ∈ grammar.rules.literals, ¬ IsPlain text) →
      ∀ again, compile grammar.rules.shown = .ok again → ¬ grammar.SameRules again) := by
  obtain ⟨rules, hfile, rfl⟩ := compile_eq_ok.1 h
  have hback : ∀ again, compile rules.shown = .ok again → (ofRules rules).SameRules again →
      ∀ text ∈ rules.literals, IsPlain text := by
    intro again hagain hsame
    obtain ⟨table, htable, rfl⟩ := compile_eq_ok.1 hagain
    exact RuleTable.isPlain_of_shown hfile htable hsame
  refine ⟨⟨?_, fun hplain => ?_⟩, ?_⟩
  · rintro ⟨again, hagain, hsame, -, -⟩
    exact hback again hagain hsame
  · obtain ⟨table, htable, hsame⟩ := RuleTable.isFile_shown hfile hplain
    have hliterals := RuleTable.literals_of_forgetSpans_eq hsame
    refine ⟨.ofRules table, compile_eq_ok.2 ⟨table, htable, rfl⟩, hsame, ?_, ?_⟩
    · rw [ofRules, ofRules, hliterals]
    · rw [ofRules, ofRules, hliterals]
  · rintro ⟨text, hmem, hnot⟩ again hagain hsame
    exact hnot (hback again hagain hsame text hmem)

/-- A backslash before an `n` comes back as a line feed. -/
theorem compile_shown_backslash :
    ∃ grammar, compile "word := '\\\\n'" = .ok grammar ∧
      ∀ again, compile grammar.rules.shown = .ok again → ¬ grammar.SameRules again := by
  have hcompile : compile "word := '\\\\n'" = .ok (.ofRules
      ⟨[⟨"word", [.terminal .plain ⟨8, 13⟩ (.literal "\\n")], ⟨0, 13⟩⟩], by decide⟩) := by decide +kernel
  exact ⟨_, hcompile, (compile_shown _ _ hcompile).2 ⟨"\\n", by decide, by decide⟩⟩

end Grammar

end TokenGrammar
