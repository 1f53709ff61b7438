/-
  TokenGrammar.Proofs.Grammar.Reading

  Everything that reading a token of a grammar can do to a draft, said once
  (`Draft.read_eq_ok_iff`).  A source is a grammar if its tokens lead from a blank
  draft to one that stands between rules (`Draft.Completes`).
-/

import TokenGrammar.Grammar.Basic

namespace TokenGrammar

namespace Place

/-- An element whose first token begins at an offset may begin at a place, and if so,
    in which rule and how. -/
inductive Expects : Place → Nat → OpenRule → Opening → Prop where
  | here (rule : OpenRule) (start : Nat) : Expects (.inSequence rule) start rule ⟨false, start⟩
  | behindTilde (rule : OpenRule) (opening : Opening) (start : Nat) :
      Expects (.afterTilde rule opening) start rule opening

end Place

namespace OpenRule

/-- The rule within one more alternation. -/
def opened (rule : OpenRule) (opening : Opening) : OpenRule :=
  { rule with
    alternations := ⟨opening, [], rule.elements⟩ :: rule.alternations
    elements := [] }

/-- The complete rule. -/
def complete (rule : OpenRule) (last : Node) : Rule :=
  ⟨rule.name.text, rule.elements.reverse, ⟨rule.name.span.start, last.span.stop⟩⟩

end OpenRule

namespace Draft

/-- What reading a token does to a draft. -/
inductive Reads : Draft → Token → Draft → Prop where
  | skip {draft : Draft} {token : Token} (h : draft.place.mayStepOver token = true) :
      Reads draft token draft
  | stop {rules : RuleTable} {token : Token} (h : token.cls = .ending) :
      Reads ⟨rules, .betweenRules⟩ token ⟨rules, .betweenRules⟩
  | name {rules : RuleTable} {token : Token} (h : isRuleName token = true) :
      Reads ⟨rules, .betweenRules⟩ token ⟨rules, .afterName token⟩
  | define {rules : RuleTable} {name token : Token} (h : token.isSymbol ":=" = true) :
      Reads ⟨rules, .afterName name⟩ token ⟨rules, .inSequence ⟨name, token, [], []⟩⟩
  | endRule {rules later : RuleTable} {rule : OpenRule} {token : Token} {last : Node}
      {before : List Node} (halternations : rule.alternations = [])
      (hcls : token.cls = .line ∨ token.cls = .ending) (helements : rule.elements = last :: before)
      (hlater : later.rules = rules.rules ++ [rule.complete last]) :
      Reads ⟨rules, .inSequence rule⟩ token ⟨later, .betweenRules⟩
  | bar {rules : RuleTable} {rule : OpenRule} {alternation : OpenAlternation}
      {outer : List OpenAlternation} {token : Token}
      (halternations : rule.alternations = alternation :: outer) (helements : rule.elements ≠ [])
      (h : token.isSymbol "|" = true) :
      Reads ⟨rules, .inSequence rule⟩ token
        ⟨rules, .inSequence
          { rule with
            alternations :=
              { alternation with branches := rule.elements.reverse :: alternation.branches } :: outer
            elements := [] }⟩
  | close {rules : RuleTable} {rule : OpenRule} {alternation : OpenAlternation}
      {outer : List OpenAlternation} {token : Token}
      (halternations : rule.alternations = alternation :: outer) (helements : rule.elements ≠ [])
      (h : token.isSymbol "]" = true) :
      Reads ⟨rules, .inSequence rule⟩ token
        ⟨rules, .inSequence
          { rule with
            alternations := outer
            elements := .alternation alternation.opening.modifiers
              ⟨alternation.opening.start, token.span.stop⟩
              (rule.elements.reverse :: alternation.branches).reverse false ::
              alternation.before }⟩
  | suffix {rules : RuleTable} {rule : OpenRule} {node node' : Node} {before : List Node}
      {token : Token} {suffix : Suffix} (helements : rule.elements = node :: before)
      (h : Suffix.ofToken? token = some suffix) (hnode : node.addSuffix suffix token = .ok node') :
      Reads ⟨rules, .inSequence rule⟩ token
        ⟨rules, .inSequence { rule with elements := node' :: before }⟩
  | tilde {rules : RuleTable} {rule : OpenRule} {token : Token} (h : token.isSymbol "~" = true) :
      Reads ⟨rules, .inSequence rule⟩ token
        ⟨rules, .afterTilde rule ⟨true, token.span.start⟩⟩
  | quote {rules : RuleTable} {place : Place} {token : Token} {rule : OpenRule}
      {opening : Opening} (hplace : place.Expects token.span.start rule opening)
      (h : (openingQuote? token).isSome = true) :
      Reads ⟨rules, place⟩ token ⟨rules, .afterQuote rule opening token⟩
  | bracket {rules : RuleTable} {place : Place} {token : Token} {rule : OpenRule}
      {opening : Opening} (hplace : place.Expects token.span.start rule opening)
      (h : token.isSymbol "[" = true) :
      Reads ⟨rules, place⟩ token ⟨rules, .inSequence (rule.opened opening)⟩
  | category {rules : RuleTable} {place : Place} {token : Token} {rule : OpenRule}
      {opening : Opening} {category : Category} (hplace : place.Expects token.span.start rule opening)
      (hcls : token.cls = .keyword) (h : Category.ofTag? token.text = some category) :
      Reads ⟨rules, place⟩ token
        ⟨rules, .inSequence (rule.add (.terminal opening.modifiers
          ⟨opening.start, token.span.stop⟩ (.ofCategory category)))⟩
  | reference {rules : RuleTable} {place : Place} {token : Token} {rule : OpenRule}
      {opening : Opening} (hplace : place.Expects token.span.start rule opening)
      (hcls : token.cls = .identifier) :
      Reads ⟨rules, place⟩ token
        ⟨rules, .inSequence (rule.add (.ref opening.modifiers
          ⟨opening.start, token.span.stop⟩ token.text))⟩
  | payload {rules : RuleTable} {rule : OpenRule} {opening : Opening} {quote token : Token}
      (h : token.cls = .comment) :
      Reads ⟨rules, .afterQuote rule opening quote⟩ token
        ⟨rules, .afterPayload rule opening quote token⟩
  | endLiteral {rules : RuleTable} {rule : OpenRule} {opening : Opening}
      {quote payload token : Token} (h : token.isSymbol quote.text = true) :
      Reads ⟨rules, .afterPayload rule opening quote payload⟩ token
        ⟨rules, .inSequence (rule.add (.terminal opening.modifiers
          ⟨opening.start, token.span.stop⟩
          (.literal (String.ofList (unescape payload.text.toList)))))⟩

end Draft

-- ============================================================================
-- Classes of tokens
-- ============================================================================

namespace Token

theorem isSymbol_iff {token : Token} {text : String} :
    token.isSymbol text = true ↔ token.cls = .symbol ∧ token.text = text := by
  rw [isSymbol, Bool.and_eq_true, beq_iff_eq, beq_iff_eq]

theorem isSymbol_eq_false_of_ne {token : Token} {text other : String}
    (h : token.isSymbol text = true) (hne : text ≠ other) : token.isSymbol other = false := by
  rw [isSymbol_iff] at h
  rw [isSymbol, h.2, beq_eq_false_iff_ne.2 hne, Bool.and_false]

theorem isSymbol_eq_false_of_cls {token : Token} (h : token.cls ≠ .symbol) (text : String) :
    token.isSymbol text = false := by
  rw [isSymbol, beq_eq_false_iff_ne.2 h, Bool.false_and]

/-- Line ends are skippable only where they are skipped. -/
theorem isSkippable_iff {token : Token} (skipLines : Bool) :
    token.isSkippable skipLines = true ↔
      token.isSkippable false = true ∨ token.cls = .line ∧ skipLines = true := by
  unfold isSkippable
  split
  · simp
  · simp
  · simp
  · next hcls => simp [hcls]
  · next hline =>
    have hnot : ¬ token.cls = .line := hline
    simp [hnot]

/-- Only marks, blanks, comments and line ends are ever stepped over. -/
theorem isSkippable_eq_false {token : Token} (skipLines : Bool)
    (h : token.cls ∉ [.beginning, .space, .comment, .line]) :
    token.isSkippable skipLines = false := by
  unfold isSkippable
  split
  · next hcls => exact absurd hcls (fun hcls => h (by simp [hcls]))
  · next hcls => exact absurd hcls (fun hcls => h (by simp [hcls]))
  · next hcls => exact absurd hcls (fun hcls => h (by simp [hcls]))
  · next hcls => exact absurd hcls (fun hcls => h (by simp [hcls]))
  · rfl

end Token

/-- A token that an element begins with, behind its `~`. -/
def BeginsElement (token : Token) : Prop :=
  (openingQuote? token).isSome = true ∨ token.isSymbol "[" = true ∨
    token.cls = .keyword ∨ token.cls = .identifier

theorem Suffix.isSymbol_of_ofToken? {token : Token} {suffix : Suffix}
    (h : Suffix.ofToken? token = some suffix) :
    token.isSymbol (String.singleton suffix.sign) = true := by
  unfold ofToken? at h
  have hfound := List.find?_some h
  exact hfound

theorem Suffix.ofToken?_of_isSymbol {token : Token} {suffix : Suffix}
    (h : token.isSymbol (String.singleton suffix.sign) = true) :
    Suffix.ofToken? token = some suffix := by
  have hother : ∀ other : Suffix, other ≠ suffix →
      token.isSymbol (String.singleton other.sign) = false := by
    intro other hne
    apply Token.isSymbol_eq_false_of_ne h
    revert hne
    cases other <;> cases suffix <;> decide
  cases suffix <;> simp [ofToken?, all, h, hother]

theorem Suffix.ofToken?_eq_none {token : Token}
    (h : ∀ suffix : Suffix, token.isSymbol (String.singleton suffix.sign) = false) :
    Suffix.ofToken? token = none := by
  rw [ofToken?, List.find?_eq_none]
  intro suffix _
  rw [h suffix]
  exact Bool.false_ne_true

theorem quote_of_openingQuote? {token : Token} (h : (openingQuote? token).isSome = true) :
    token.cls = .symbol ∧ ∃ c rest, token.text.toList = c :: rest ∧ c ∈ literalQuotes := by
  unfold openingQuote? at h
  split at h
  · next c rest hcls htext =>
    split at h
    · next hquote => exact ⟨hcls, c, rest, htext, List.contains_iff_mem.1 hquote⟩
    · cases h
  · cases h

theorem isSymbol_eq_false_of_openingQuote? {token : Token} {text : String}
    (h : (openingQuote? token).isSome = true)
    (htext : text.toList.head?.any literalQuotes.contains = false) :
    token.isSymbol text = false := by
  obtain ⟨-, c, rest, hchars, hquote⟩ := quote_of_openingQuote? h
  apply Bool.eq_false_iff.2
  intro hsymbol
  rw [(Token.isSymbol_iff.1 hsymbol).2] at hchars
  rw [hchars, List.head?_cons, Option.any_some, List.contains_iff_mem.2 hquote] at htext
  cases htext

theorem openingQuote?_eq_none_of_isSymbol {token : Token} {text : String}
    (h : token.isSymbol text = true) (htext : text.toList.head?.any literalQuotes.contains = false) :
    openingQuote? token = none := by
  apply Option.not_isSome_iff_eq_none.1
  intro hquote
  rw [isSymbol_eq_false_of_openingQuote? hquote htext] at h
  cases h

theorem openingQuote?_eq_none_of_cls {token : Token} (h : token.cls ≠ .symbol) :
    openingQuote? token = none := by
  apply Option.not_isSome_iff_eq_none.1
  intro hquote
  exact h (quote_of_openingQuote? hquote).1

namespace BeginsElement

variable {token : Token}

theorem cls_mem (h : BeginsElement token) : token.cls ∈ [.symbol, .keyword, .identifier] := by
  rcases h with h | h | h | h
  · rw [(quote_of_openingQuote? h).1]
    decide
  · rw [(Token.isSymbol_iff.1 h).1]
    decide
  · rw [h]
    decide
  · rw [h]
    decide

/-- No other sign begins an element. -/
theorem isSymbol_eq_false (h : BeginsElement token) {text : String}
    (htext : text ∈ ["|", "]", "~", "?", "*", "!", "$"]) : token.isSymbol text = false := by
  rcases h with h | h | h | h
  · apply isSymbol_eq_false_of_openingQuote? h
    simp only [List.mem_cons, List.not_mem_nil, or_false] at htext
    rcases htext with rfl | rfl | rfl | rfl | rfl | rfl | rfl <;> decide
  · apply Token.isSymbol_eq_false_of_ne h
    rintro rfl
    exact absurd htext (by decide)
  · exact Token.isSymbol_eq_false_of_cls (by rw [h]; decide) text
  · exact Token.isSymbol_eq_false_of_cls (by rw [h]; decide) text

theorem ofToken?_eq_none (h : BeginsElement token) : Suffix.ofToken? token = none :=
  Suffix.ofToken?_eq_none fun suffix => h.isSymbol_eq_false (by cases suffix <;> decide)

theorem cls_notMem (h : BeginsElement token) :
    token.cls ∉ [.beginning, .space, .comment, .line] := by
  have hcls := h.cls_mem
  simp only [List.mem_cons, List.not_mem_nil, or_false] at hcls
  rcases hcls with hcls | hcls | hcls
  · rw [hcls]
    decide
  · rw [hcls]
    decide
  · rw [hcls]
    decide

end BeginsElement

-- ============================================================================
-- What a place makes of a token
-- ============================================================================

namespace Place

variable {rule : OpenRule} {opening : Opening} {token : Token} {alternation : OpenAlternation}
  {outer : List OpenAlternation}

theorem mayStepOver_eq_false (place : Place)
    (h : token.cls ∉ [.beginning, .space, .comment, .line]) : place.mayStepOver token = false := by
  cases place with
  | betweenRules => exact Token.isSkippable_eq_false true h
  | afterName name => exact Token.isSkippable_eq_false false h
  | inSequence rule => exact Token.isSkippable_eq_false rule.inAlternation h
  | afterTilde rule opening => exact Token.isSkippable_eq_false rule.inAlternation h
  | afterQuote => rfl
  | afterPayload => rfl

theorem readElement_of_bracket (h : token.isSymbol "[" = true) :
    readElement rule opening token = .ok (.inSequence (rule.opened opening)) := by
  unfold readElement
  rw [openingQuote?_eq_none_of_isSymbol h (by decide), if_neg (by decide), if_pos h]
  rfl

theorem readElement_of_category {category : Category} (hcls : token.cls = .keyword)
    (h : Category.ofTag? token.text = some category) :
    readElement rule opening token =
      .ok (.inSequence (rule.add (.terminal opening.modifiers
        ⟨opening.start, token.span.stop⟩ (.ofCategory category)))) := by
  have hsymbol : token.cls ≠ .symbol := by
    rw [hcls]
    decide
  unfold readElement
  rw [openingQuote?_eq_none_of_cls hsymbol, if_neg (by decide),
    Token.isSymbol_eq_false_of_cls hsymbol, if_neg Bool.false_ne_true]
  simp only [hcls, h]
  rfl

theorem readElement_of_reference (hcls : token.cls = .identifier) :
    readElement rule opening token =
      .ok (.inSequence (rule.add (.ref opening.modifiers
        ⟨opening.start, token.span.stop⟩ token.text))) := by
  have hsymbol : token.cls ≠ .symbol := by
    rw [hcls]
    decide
  unfold readElement
  rw [openingQuote?_eq_none_of_cls hsymbol, if_neg (by decide),
    Token.isSymbol_eq_false_of_cls hsymbol, if_neg Bool.false_ne_true]
  simp only [hcls]
  rfl

theorem continueSequence_of_suffix {node node' : Node} {before : List Node} {suffix : Suffix}
    (helements : rule.elements = node :: before) (h : Suffix.ofToken? token = some suffix)
    (hnode : node.addSuffix suffix token = .ok node') :
    continueSequence rule token = .ok (.inSequence { rule with elements := node' :: before }) := by
  unfold continueSequence
  rw [helements, h]
  dsimp only
  rw [hnode]
  rfl

/-- What is no suffix begins an element. -/
theorem continueSequence_of_none (h : Suffix.ofToken? token = none) :
    continueSequence rule token = beginElement rule token := by
  unfold continueSequence
  rw [h]
  cases rule.elements <;> rfl

theorem continueSequence_of_tilde (h : token.isSymbol "~" = true) :
    continueSequence rule token = .ok (.afterTilde rule ⟨true, token.span.start⟩) := by
  have hnone : Suffix.ofToken? token = none := Suffix.ofToken?_eq_none fun suffix =>
    Token.isSymbol_eq_false_of_ne h (by cases suffix <;> decide)
  rw [continueSequence_of_none hnone]
  exact if_pos h

theorem continueSequence_of_begins (h : BeginsElement token) :
    continueSequence rule token = readElement rule ⟨false, token.span.start⟩ token := by
  rw [continueSequence_of_none h.ofToken?_eq_none, beginElement,
    h.isSymbol_eq_false (by decide), if_neg Bool.false_ne_true]

theorem endBranch_of_bar (helements : rule.elements ≠ []) (h : token.isSymbol "|" = true) :
    endBranch rule alternation outer token =
      .ok (.inSequence
        { rule with
          alternations :=
            { alternation with branches := rule.elements.reverse :: alternation.branches } :: outer
          elements := [] }) := by
  have hempty : ¬ rule.elements.isEmpty = true := fun h => helements (List.isEmpty_iff.1 h)
  have htext : ¬ (token.text == "]") = true := by
    rw [(Token.isSymbol_iff.1 h).2]
    decide
  unfold endBranch
  rw [if_neg hempty, if_neg htext]

theorem endBranch_of_close (helements : rule.elements ≠ []) (h : token.isSymbol "]" = true) :
    endBranch rule alternation outer token =
      .ok (.inSequence
        { rule with
          alternations := outer
          elements := .alternation alternation.opening.modifiers
            ⟨alternation.opening.start, token.span.stop⟩
            (rule.elements.reverse :: alternation.branches).reverse false ::
            alternation.before }) := by
  have hempty : ¬ rule.elements.isEmpty = true := fun h => helements (List.isEmpty_iff.1 h)
  have htext : (token.text == "]") = true := beq_iff_eq.2 (Token.isSymbol_iff.1 h).2
  unfold endBranch
  rw [if_neg hempty, if_pos htext]

theorem readPayload_of_cls {quote : Token} (h : token.cls = .comment) :
    readPayload rule opening quote token = .ok (.afterPayload rule opening quote token) := by
  unfold readPayload
  rw [Token.isSymbol_eq_false_of_cls (by rw [h]; decide), if_neg Bool.false_ne_true,
    if_pos (beq_iff_eq.2 h)]

end Place

-- ============================================================================
-- What reading does
-- ============================================================================

namespace Draft

variable {tokens : List Token} {draft later : Draft} {token : Token} {rules : RuleTable}
  {place place' : Place} {rule : OpenRule} {opening : Opening}

theorem reads_of_readElement (hplace : place.Expects token.span.start rule opening)
    (h : Place.readElement rule opening token = .ok place') :
    Reads ⟨rules, place⟩ token ⟨rules, place'⟩ := by
  unfold Place.readElement at h
  split at h
  · next hquote =>
    cases h
    exact .quote hplace hquote
  · split at h
    · next hbracket =>
      cases h
      exact .bracket hplace hbracket
    · dsimp only at h
      split at h
      · next hcls =>
        split at h
        · next htag =>
          cases h
          exact .category hplace hcls htag
        · cases h
      · next hcls =>
        cases h
        exact .reference hplace hcls
      · cases h

theorem reads_of_continueSequence (h : Place.continueSequence rule token = .ok place') :
    Reads ⟨rules, .inSequence rule⟩ token ⟨rules, place'⟩ := by
  unfold Place.continueSequence at h
  split at h
  · next node before suffix helements hsuffix =>
    cases hnode : node.addSuffix suffix token with
    | error error =>
        rw [hnode] at h
        cases h
    | ok node' =>
        rw [hnode] at h
        cases h
        exact .suffix helements hsuffix hnode
  · unfold Place.beginElement at h
    split at h
    · next htilde =>
      cases h
      exact .tilde htilde
    · exact reads_of_readElement (.here rule token.span.start) h

theorem reads_of_endBranch {alternation : OpenAlternation} {outer : List OpenAlternation}
    (halternations : rule.alternations = alternation :: outer)
    (hsign : token.isSymbol "|" = true ∨ token.isSymbol "]" = true)
    (h : Place.endBranch rule alternation outer token = .ok place') :
    Reads ⟨rules, .inSequence rule⟩ token ⟨rules, place'⟩ := by
  unfold Place.endBranch at h
  split at h
  · cases h
  · next hempty =>
    have helements : rule.elements ≠ [] := fun hnil => hempty (List.isEmpty_iff.2 hnil)
    dsimp only at h
    split at h
    · next htext =>
      cases h
      refine .close halternations helements (Token.isSymbol_iff.2 ⟨?_, eq_of_beq htext⟩)
      rcases hsign with hsign | hsign
      · exact (Token.isSymbol_iff.1 hsign).1
      · exact (Token.isSymbol_iff.1 hsign).1
    · next htext =>
      cases h
      refine .bar halternations helements ?_
      rcases hsign with hsign | hsign
      · exact hsign
      · exact absurd (beq_iff_eq.2 (Token.isSymbol_iff.1 hsign).2) htext

theorem insert_eq_ok_iff {table later : RuleTable} {rule : Rule} {id : RuleId} :
    table.insert rule = .ok (id, later) ↔
      id = ⟨table.size⟩ ∧ later.rules = table.rules ++ [rule] := by
  unfold RuleTable.insert
  split
  · next found hfound =>
    constructor
    · intro h
      cases h
    · rintro ⟨-, hlater⟩
      have hnodup := later.nodup_names
      rw [hlater, List.map_append, List.nodup_append] at hnodup
      have hfree : rule.name ∉ table.names := by
        intro hname
        exact hnodup.2.2 rule.name hname rule.name (by simp) rfl
      rw [RuleTable.id?_eq_none_iff.2 hfree] at hfound
      cases hfound
  · obtain ⟨rules, hrules⟩ := later
    constructor
    · intro h
      cases h
      exact ⟨rfl, rfl⟩
    · rintro ⟨rfl, hlater⟩
      dsimp only at hlater
      subst hlater
      rfl

theorem endRule_eq_ok_iff :
    endRule tokens ⟨rules, place⟩ rule = .ok later ↔
      ∃ last before, rule.elements = last :: before ∧ later.place = .betweenRules ∧
        later.rules.rules = rules.rules ++ [rule.complete last] := by
  unfold endRule
  split
  · next hnil =>
    constructor
    · intro h
      cases h
    · rintro ⟨last, before, hcons, -⟩
      rw [hnil] at hcons
      cases hcons
  · next last before hcons =>
    dsimp only
    split
    · next id table hinsert =>
      have htable := (insert_eq_ok_iff.1 hinsert).2
      obtain ⟨laterRules, laterPlace⟩ := later
      constructor
      · intro h
        cases h
        exact ⟨last, before, hcons, rfl, htable⟩
      · rintro ⟨last', before', hcons', hplace, hrules⟩
        rw [hcons] at hcons'
        cases hcons'
        dsimp only at hplace
        subst hplace
        have hboth := insert_eq_ok_iff.2 ⟨(insert_eq_ok_iff.1 hinsert).1, hrules⟩
        have := hinsert.symm.trans hboth
        cases this
        rfl
    · next id hinsert =>
      constructor
      · intro h
        cases h
      · rintro ⟨last', before', hcons', hplace, hrules⟩
        rw [hcons] at hcons'
        cases hcons'
        have := hinsert.symm.trans (insert_eq_ok_iff.2 ⟨rfl, hrules⟩)
        cases this

theorem map_mk_eq_ok {result : Except GrammarError Place}
    (h : result.map (Draft.mk rules) = .ok later) :
    ∃ place, result = .ok place ∧ later = ⟨rules, place⟩ := by
  cases result with
  | error error => cases h
  | ok place =>
      cases h
      exact ⟨place, rfl, rfl⟩

theorem reads_of_readToken_inSequence
    (h : readToken tokens ⟨rules, .inSequence rule⟩ token = .ok later) :
    Reads ⟨rules, .inSequence rule⟩ token later := by
  simp only [readToken] at h
  split at h
  · next halternations =>
    split at h
    · next hcls =>
      obtain ⟨last, before, helements, hplace, hrules⟩ := endRule_eq_ok_iff.1 h
      rw [Bool.or_eq_true, beq_iff_eq, beq_iff_eq] at hcls
      obtain ⟨laterRules, laterPlace⟩ := later
      dsimp only at hplace
      subst hplace
      exact .endRule halternations hcls helements hrules
    · obtain ⟨place', hplace', rfl⟩ := map_mk_eq_ok h
      exact reads_of_continueSequence hplace'
  · next alternation outer halternations =>
    split at h
    · next hsign =>
      obtain ⟨place', hplace', rfl⟩ := map_mk_eq_ok h
      exact reads_of_endBranch halternations ((Bool.or_eq_true _ _).mp hsign) hplace'
    · split at h
      · cases h
      · obtain ⟨place', hplace', rfl⟩ := map_mk_eq_ok h
        exact reads_of_continueSequence hplace'

theorem reads_of_read (h : read tokens draft token = .ok later) : Reads draft token later := by
  obtain ⟨rules, place⟩ := draft
  unfold read at h
  split at h
  · next hskip =>
    cases h
    exact .skip hskip
  · cases place with
    | betweenRules =>
        simp only [readToken] at h
        split at h
        · next hcls =>
          cases h
          exact .stop (eq_of_beq hcls)
        · split at h
          · next hname =>
            cases h
            exact .name hname
          · cases h
    | afterName name =>
        simp only [readToken] at h
        split at h
        · next hdefine =>
          cases h
          exact .define hdefine
        · cases h
    | inSequence rule => exact reads_of_readToken_inSequence h
    | afterTilde rule opening =>
        obtain ⟨place', hplace', rfl⟩ := map_mk_eq_ok h
        exact reads_of_readElement (.behindTilde rule opening token.span.start) hplace'
    | afterQuote rule opening quote =>
        obtain ⟨place', hplace', rfl⟩ := map_mk_eq_ok h
        unfold Place.readPayload at hplace'
        split at hplace'
        · cases hplace'
        · split at hplace'
          · next hcls =>
            cases hplace'
            exact .payload (eq_of_beq hcls)
          · cases hplace'
    | afterPayload rule opening quote payload =>
        obtain ⟨place', hplace', rfl⟩ := map_mk_eq_ok h
        unfold Place.closeLiteral at hplace'
        split at hplace'
        · next hclose =>
          cases hplace'
          exact .endLiteral hclose
        · cases hplace'

theorem read_eq_readToken (h : token.cls ∉ [.beginning, .space, .comment, .line]) :
    read tokens draft token = readToken tokens draft token := by
  unfold read
  rw [draft.place.mayStepOver_eq_false h, if_neg Bool.false_ne_true]

/-- A symbol goes on with a sequence unless it ends a branch. -/
theorem read_inSequence_of_continue (hcls : token.cls = .symbol)
    (hbar : token.isSymbol "|" = false) (hclose : token.isSymbol "]" = false) :
    read tokens ⟨rules, .inSequence rule⟩ token =
      (Place.continueSequence rule token).map (Draft.mk rules) := by
  rw [read_eq_readToken (by rw [hcls]; decide)]
  simp only [readToken, hcls, hbar, hclose]
  split <;> rfl

theorem read_inSequence_of_end {alternation : OpenAlternation} {outer : List OpenAlternation}
    (halternations : rule.alternations = alternation :: outer)
    (hsign : token.isSymbol "|" = true ∨ token.isSymbol "]" = true) :
    read tokens ⟨rules, .inSequence rule⟩ token =
      (Place.endBranch rule alternation outer token).map (Draft.mk rules) := by
  have hcls : token.cls = .symbol := by
    rcases hsign with hsign | hsign
    · exact (Token.isSymbol_iff.1 hsign).1
    · exact (Token.isSymbol_iff.1 hsign).1
  rw [read_eq_readToken (by rw [hcls]; decide)]
  simp only [readToken, halternations]
  exact if_pos ((Bool.or_eq_true _ _).mpr hsign)

/-- A token that an element begins with is read as such. -/
theorem read_of_expects (hplace : place.Expects token.span.start rule opening)
    (hbegins : BeginsElement token) :
    read tokens ⟨rules, place⟩ token =
      (Place.readElement rule opening token).map (Draft.mk rules) := by
  rw [read_eq_readToken hbegins.cls_notMem]
  cases hplace with
  | behindTilde => rfl
  | here =>
      have hcls := hbegins.cls_mem
      have hline : (token.cls == .line) = false := by
        rw [beq_eq_false_iff_ne]
        intro h
        rw [h] at hcls
        exact absurd hcls (by decide)
      have hending : (token.cls == .ending) = false := by
        rw [beq_eq_false_iff_ne]
        intro h
        rw [h] at hcls
        exact absurd hcls (by decide)
      simp only [readToken, hline, hending, Place.continueSequence_of_begins hbegins,
        Bool.or_false, Bool.false_eq_true, if_false,
        hbegins.isSymbol_eq_false (show "|" ∈ _ by decide),
        hbegins.isSymbol_eq_false (show "]" ∈ _ by decide)]
      split <;> rfl

/-- The end of a line or of the source ends a rule outside of alternations. -/
theorem read_eq_endRule (halternations : rule.alternations = [])
    (hcls : token.cls = .line ∨ token.cls = .ending) :
    read tokens ⟨rules, .inSequence rule⟩ token =
      endRule tokens ⟨rules, .inSequence rule⟩ rule := by
  have hskip : (Place.inSequence rule).mayStepOver token = false := by
    have hout : rule.inAlternation = false := by rw [OpenRule.inAlternation, halternations]; rfl
    rw [Place.mayStepOver, hout]
    rcases hcls with hcls | hcls
    · rw [Token.isSkippable, hcls]
    · rw [Token.isSkippable, hcls]
  have hend : (token.cls == .line || token.cls == .ending) = true := by
    rw [Bool.or_eq_true, beq_iff_eq, beq_iff_eq]
    exact hcls
  unfold read
  rw [if_neg (by rw [hskip]; exact Bool.false_ne_true)]
  simp only [readToken, halternations, hend, if_true]

theorem read_of_endRule {last : Node} {before : List Node} {later : RuleTable}
    (halternations : rule.alternations = []) (hcls : token.cls = .line ∨ token.cls = .ending)
    (helements : rule.elements = last :: before)
    (hlater : later.rules = rules.rules ++ [rule.complete last]) :
    read tokens ⟨rules, .inSequence rule⟩ token = .ok ⟨later, .betweenRules⟩ := by
  rw [read_eq_endRule halternations hcls]
  exact endRule_eq_ok_iff.2 ⟨last, before, helements, rfl, hlater⟩

theorem read_of_reads (h : Reads draft token later) : read tokens draft token = .ok later := by
  cases h with
  | skip h => exact if_pos h
  | stop h =>
      rw [read_eq_readToken (by rw [h]; decide)]
      simp only [readToken, h, beq_self_eq_true, if_true]
  | name h =>
      have hcls : token.cls = .identifier := by
        rw [isRuleName, Bool.and_eq_true] at h
        exact eq_of_beq h.1
      rw [read_eq_readToken (by rw [hcls]; decide)]
      simp only [readToken, h, hcls, if_true]
      rfl
  | define h =>
      rw [read_eq_readToken (by rw [(Token.isSymbol_iff.1 h).1]; decide)]
      simp only [readToken, h, if_true]
  | endRule halternations hcls helements hlater =>
      exact read_of_endRule halternations hcls helements hlater
  | bar halternations helements h =>
      rw [read_inSequence_of_end halternations (.inl h), Place.endBranch_of_bar helements h]
      rfl
  | close halternations helements h =>
      rw [read_inSequence_of_end halternations (.inr h), Place.endBranch_of_close helements h]
      rfl
  | @suffix _ _ _ _ _ _ suffix helements h hnode =>
      have hsign := Suffix.isSymbol_of_ofToken? h
      rw [read_inSequence_of_continue (Token.isSymbol_iff.1 hsign).1
        (Token.isSymbol_eq_false_of_ne hsign (by cases suffix <;> decide))
        (Token.isSymbol_eq_false_of_ne hsign (by cases suffix <;> decide)),
        Place.continueSequence_of_suffix helements h hnode]
      rfl
  | tilde h =>
      rw [read_inSequence_of_continue (Token.isSymbol_iff.1 h).1
        (Token.isSymbol_eq_false_of_ne h (by decide)) (Token.isSymbol_eq_false_of_ne h (by decide)),
        Place.continueSequence_of_tilde h]
      rfl
  | quote hplace h =>
      rw [read_of_expects hplace (.inl h), Place.readElement, if_pos h]
      rfl
  | bracket hplace h =>
      rw [read_of_expects hplace (.inr (.inl h)), Place.readElement_of_bracket h]
      rfl
  | category hplace hcls h =>
      rw [read_of_expects hplace (.inr (.inr (.inl hcls))), Place.readElement_of_category hcls h]
      rfl
  | reference hplace hcls =>
      rw [read_of_expects hplace (.inr (.inr (.inr hcls))), Place.readElement_of_reference hcls]
      rfl
  | @payload rules rule opening quote _ h =>
      show (Place.readPayload rule opening quote token).map (Draft.mk rules) = _
      rw [Place.readPayload_of_cls h]
      rfl
  | @endLiteral rules rule opening quote payload _ h =>
      show (Place.closeLiteral rule opening quote payload token).map (Draft.mk rules) = _
      rw [Place.closeLiteral, if_pos h]
      rfl

/-- Reading a token leads where it is said to. -/
theorem read_eq_ok_iff : read tokens draft token = .ok later ↔ Reads draft token later :=
  ⟨reads_of_read, read_of_reads⟩

-- ============================================================================
-- Reading all tokens
-- ============================================================================

/-- Some tokens lead from one draft to another. -/
def Runs (draft : Draft) : List Token → Draft → Prop
  | [], later => draft = later
  | token :: rest, later => ∃ middle, Reads draft token middle ∧ middle.Runs rest later

/-- Some tokens lead from a draft to one that stands between rules and holds some
    rules. -/
def Completes (draft : Draft) (rest : List Token) (rules : RuleTable) : Prop :=
  draft.Runs rest ⟨rules, .betweenRules⟩

theorem runs_append_iff {first second : List Token} :
    draft.Runs (first ++ second) later ↔
      ∃ middle : Draft, draft.Runs first middle ∧ middle.Runs second later := by
  induction first generalizing draft with
  | nil =>
      constructor
      · exact fun h => ⟨draft, rfl, h⟩
      · rintro ⟨middle, rfl, h⟩
        exact h
  | cons token rest ih =>
      constructor
      · rintro ⟨next, hreads, h⟩
        obtain ⟨middle, hrest, hsecond⟩ := ih.1 h
        exact ⟨middle, ⟨next, hreads, hrest⟩, hsecond⟩
      · rintro ⟨middle, ⟨next, hreads, hrest⟩, hsecond⟩
        exact ⟨next, hreads, ih.2 ⟨middle, hrest, hsecond⟩⟩

theorem Runs.append {middle : Draft} {first second : List Token} (h : draft.Runs first middle)
    (h' : middle.Runs second later) : draft.Runs (first ++ second) later :=
  runs_append_iff.2 ⟨middle, h, h'⟩

theorem Reads.runs (h : Reads draft token later) : draft.Runs [token] later :=
  ⟨later, h, rfl⟩

theorem readAll_cons_eq_ok_iff {rest : List Token} :
    draft.readAll tokens (token :: rest) = .ok later ↔
      ∃ middle, Reads draft token middle ∧ middle.readAll tokens rest = .ok later := by
  have hcons : draft.readAll tokens (token :: rest) =
      draft.read tokens token >>= fun middle => middle.readAll tokens rest := rfl
  rw [hcons]
  constructor
  · intro h
    cases hread : draft.read tokens token with
    | error error =>
        rw [hread] at h
        cases h
    | ok middle =>
        rw [hread] at h
        exact ⟨middle, read_eq_ok_iff.1 hread, h⟩
  · rintro ⟨middle, hreads, hrest⟩
    rw [read_eq_ok_iff.2 hreads]
    exact hrest

theorem runs_iff_readAll {rest : List Token} :
    draft.Runs rest later ↔ draft.readAll tokens rest = .ok later := by
  induction rest generalizing draft with
  | nil =>
      constructor
      · intro h
        rw [show draft = later from h]
        rfl
      · intro h
        exact Except.ok.inj h
  | cons token rest ih =>
      rw [readAll_cons_eq_ok_iff, Runs]
      simp only [ih]

/-- The mark at the end of a source leads to a draft that stands between rules. -/
theorem place_of_reads_ending (h : Reads draft token later) (hcls : token.cls = .ending) :
    later.place = .betweenRules := by
  have hsymbol : ∀ text, ¬ token.isSymbol text = true := fun text hsymbol => by
    rw [(Token.isSymbol_iff.1 hsymbol).1] at hcls
    cases hcls
  cases h with
  | skip hskip =>
      rw [draft.place.mayStepOver_eq_false (by rw [hcls]; decide)] at hskip
      cases hskip
  | stop => rfl
  | endRule => rfl
  | name hname =>
      rw [isRuleName, Bool.and_eq_true, beq_iff_eq, hcls] at hname
      exact absurd hname.1 (by decide)
  | define h => exact absurd h (hsymbol _)
  | bar _ _ h => exact absurd h (hsymbol _)
  | close _ _ h => exact absurd h (hsymbol _)
  | suffix _ h => exact absurd (Suffix.isSymbol_of_ofToken? h) (hsymbol _)
  | tilde h => exact absurd h (hsymbol _)
  | quote _ h =>
      rw [(quote_of_openingQuote? h).1] at hcls
      cases hcls
  | bracket _ h => exact absurd h (hsymbol _)
  | category _ h =>
      rw [h] at hcls
      cases hcls
  | reference _ h =>
      rw [h] at hcls
      cases hcls
  | payload h =>
      rw [h] at hcls
      cases hcls
  | endLiteral h => exact absurd h (hsymbol _)

theorem place_of_readAll_ending {rest : List Token} (hcls : token.cls = .ending)
    (h : draft.readAll tokens (rest ++ [token]) = .ok later) : later.place = .betweenRules := by
  induction rest generalizing draft with
  | nil =>
      obtain ⟨middle, hreads, hrest⟩ := readAll_cons_eq_ok_iff.1 h
      rw [← Except.ok.inj hrest]
      exact place_of_reads_ending hreads hcls
  | cons first rest ih =>
      obtain ⟨middle, -, hrest⟩ := readAll_cons_eq_ok_iff.1 h
      exact ih hrest

end Draft

/-- A source defines some rules if its tokens lead from nothing to these rules. -/
theorem RuleTable.ofTokens_eq_ok_iff {stream : TokenStream} {rules : RuleTable}
    (hending : stream.ending.cls = .ending) :
    RuleTable.ofTokens stream = .ok rules ↔ Draft.blank.Completes stream.toList rules := by
  rw [Draft.Completes, Draft.runs_iff_readAll, RuleTable.ofTokens]
  constructor
  · intro h
    cases hread : Draft.blank.readAll stream.toList stream.toList with
    | error error =>
        rw [hread] at h
        cases h
    | ok later =>
        have hplace := Draft.place_of_readAll_ending hending hread
        rw [hread] at h
        obtain ⟨laterRules, place⟩ := later
        dsimp only at hplace
        rw [hplace, show laterRules = rules from Except.ok.inj h]
  · intro h
    rw [h]
    rfl

end TokenGrammar
