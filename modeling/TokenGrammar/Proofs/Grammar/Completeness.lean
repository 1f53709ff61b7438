/-
  TokenGrammar.Proofs.Grammar.Completeness

  Whatever items the notation derives lead to a grammar with the rules that they
  stand for.  Every phrase is read the same way wherever it may stand: what is read
  around it stays as it is (`Phrase.IsRead`).

  Main statement: `IsFile.completes`.
-/

import TokenGrammar.Proofs.Grammar.Items

namespace TokenGrammar

/-- Where an element ends that ended at `stop` before its suffixes. -/
def stopBehind (stop : Nat) (signs : List (Suffix × Token)) : Nat :=
  (signs.getLast?.map (·.2.span.stop)).getD stop

theorem stopBehind_cons (stop : Nat) (sign : Suffix × Token) (rest : List (Suffix × Token)) :
    stopBehind stop (sign :: rest) = stopBehind sign.2.span.stop rest := by
  cases rest with
  | nil => rfl
  | cons next rest => rfl

theorem spanOf_append_signs {items : List Item} (h : items ≠ []) (signs : List (Suffix × Token)) :
    spanOf (items ++ signs.map (.single ·.2)) =
      ⟨(spanOf items).start, stopBehind (spanOf items).stop signs⟩ := by
  by_cases hsigns : signs = []
  · rw [hsigns, List.map_nil, List.append_nil]
    rfl
  · rw [spanOf_append h (by simpa using hsigns)]
    simp only [spanOf, stopBehind, List.getLast?_map, List.getLast?_eq_some_getLast hsigns]
    rfl

/-- An element reaches from its `~` to its last suffix. -/
theorem spanOf_element {items : List Item} (h : items ≠ []) (tilde : Option Token)
    (signs : List (Suffix × Token)) :
    spanOf (tilde.toList.map .single ++ items ++ signs.map (.single ·.2)) =
      ⟨(spanOf (tilde.toList.map .single ++ items)).start,
        stopBehind (spanOf items).stop signs⟩ := by
  rw [spanOf_append_signs (List.append_ne_nil_of_right_ne_nil _ h)]
  cases tilde with
  | none => rfl
  | some token =>
      have hspan := spanOf_append (List.cons_ne_nil (Item.single token) []) h
      show Span.mk _ (stopBehind (spanOf ([.single token] ++ items)).stop signs) = _
      rw [hspan]

namespace Draft

/-- Signs behind an element set its suffixes. -/
theorem runs_signs {primary : Primary} {signs : List (Suffix × Token)}
    (hsigns : ∀ sign ∈ signs, sign.2.isSymbol (String.singleton sign.1.sign) = true)
    {before : List Suffix} (honce : (before ++ signs.map Prod.fst).Nodup)
    (hbracket : .onceEach ∈ signs.map Prod.fst → primary.isAlternation = true)
    (rules : RuleTable) (rule : OpenRule) (adjacent : Bool) (span : Span) :
    Runs ⟨rules, .inSequence (rule.add (primary.node adjacent before span))⟩
      (signs.map Prod.snd)
      ⟨rules, .inSequence (rule.add
        (primary.node adjacent (before ++ signs.map Prod.fst)
          ⟨span.start, stopBehind span.stop signs⟩))⟩ := by
  induction signs generalizing before span with
  | nil =>
      simp only [List.map_nil, List.append_nil]
      rfl
  | cons sign rest ih =>
      obtain ⟨suffix, token⟩ := sign
      have hsign := hsigns (suffix, token) List.mem_cons_self
      have hallowed : suffix = .onceEach → primary.isAlternation = true := by
        rintro rfl
        exact hbracket List.mem_cons_self
      rw [List.map_cons, List.append_cons before suffix] at honce
      have hfresh : suffix ∉ before := by
        have hnodup := (List.nodup_append.1 honce).1
        have hdisjoint := (List.nodup_append.1 hnodup).2.2
        exact fun hmem => hdisjoint suffix hmem suffix (List.mem_singleton.2 rfl) rfl
      have hadd : (primary.node adjacent before span).addSuffix suffix token =
          .ok (primary.node adjacent (before ++ [suffix]) ⟨span.start, token.span.stop⟩) :=
        Primary.addSuffix_node_eq_ok_iff.2 ⟨hallowed, hfresh, rfl⟩
      have hreads : Reads
          ⟨rules, .inSequence (rule.add (primary.node adjacent before span))⟩ token
          ⟨rules, .inSequence (rule.add
            (primary.node adjacent (before ++ [suffix]) ⟨span.start, token.span.stop⟩))⟩ :=
        .suffix rfl (Suffix.ofToken?_of_isSymbol hsign) hadd
      refine ⟨_, hreads, ?_⟩
      have hrest := ih (fun sign h => hsigns sign (List.mem_cons_of_mem _ h)) honce
        (fun h => hbracket (List.mem_cons_of_mem _ h)) ⟨span.start, token.span.stop⟩
      rw [stopBehind_cons, List.map_cons, List.append_cons before suffix (rest.map Prod.fst)]
      exact hrest

end Draft

/-- How the items of a phrase are read. -/
def Phrase.IsRead (items : List Item) : Phrase → Prop
  | .primary made => ∀ (rules : RuleTable) (place : Place) (rule : OpenRule)
      (opening : Opening), place.Expects (spanOf items).start rule opening →
      Draft.Runs ⟨rules, place⟩ (items.flatMap Item.tokens)
        ⟨rules, .inSequence (rule.add
          (made.node opening.adjacent [] ⟨opening.start, (spanOf items).stop⟩))⟩
  | .element node => node.span = spanOf items ∧ ∀ (rules : RuleTable) (rule : OpenRule),
      Draft.Runs ⟨rules, .inSequence rule⟩ (items.flatMap Item.tokens)
        ⟨rules, .inSequence (rule.add node)⟩
  | .sequence nodes => (∃ last before, nodes = before ++ [last] ∧
      last.span.stop = (spanOf items).stop) ∧ ∀ (rules : RuleTable) (rule : OpenRule),
      Draft.Runs ⟨rules, .inSequence rule⟩ (items.flatMap Item.tokens)
        ⟨rules, .inSequence { rule with elements := nodes.reverse ++ rule.elements }⟩
  | .branches tried => ∃ last before, tried = before ++ [last] ∧ last ≠ [] ∧
      ∀ (rules : RuleTable) (rule : OpenRule) (opening : Opening) (outside : List Node)
        (outer : List OpenAlternation),
      Draft.Runs
        ⟨rules, .inSequence
          ⟨rule.name, rule.define, ⟨opening, [], outside⟩ :: outer, []⟩⟩
        (items.flatMap Item.tokens)
        ⟨rules, .inSequence
          ⟨rule.name, rule.define, ⟨opening, before.reverse, outside⟩ :: outer, last.reverse⟩⟩

namespace Phrase

/-- Brackets around branches make an alternation of them. -/
theorem isRead_alternation {opening closing : Token} {branches : List (List Node)}
    {inner : List Item} (hopening : opening.isSymbol "[" = true)
    (hclosing : closing.isSymbol "]" = true) (h : (Phrase.branches branches).IsRead inner) :
    (Phrase.primary (.alternation branches)).IsRead
      (.single opening :: (inner ++ [.single closing])) := by
  intro rules place rule begin hplace
  obtain ⟨last, before, rfl, hlast, hruns⟩ := h
  have hbracket : Draft.Reads ⟨rules, place⟩ opening _ := .bracket hplace hopening
  have hinside := hruns rules rule begin rule.elements rule.alternations
  have hclose : Draft.Reads ⟨rules, .inSequence ⟨rule.name, rule.define,
      ⟨begin, before.reverse, rule.elements⟩ :: rule.alternations, last.reverse⟩⟩ closing _ :=
    .close rfl (by simpa using hlast) hclosing
  rw [List.reverse_cons, List.reverse_reverse, List.reverse_reverse] at hclose
  have hstop : (spanOf (.single opening :: (inner ++ [.single closing]))).stop =
      closing.span.stop := stop_spanOf_concat (.single opening :: inner) (.single closing)
  rw [hstop, List.flatMap_cons, List.flatMap_append]
  exact hbracket.runs.append (hinside.append hclose.runs)

/-- A `~` before a primary and signs behind it make an element of it. -/
theorem isRead_element {primary : Primary} {items : List Item} {tilde : Option Token}
    {signs : List (Suffix × Token)} (hne : items ≠ [])
    (htilde : ∀ token ∈ tilde, token.isSymbol "~" = true)
    (hsigns : ∀ sign ∈ signs, sign.2.isSymbol (String.singleton sign.1.sign) = true)
    (honce : (signs.map Prod.fst).Nodup)
    (hbracket : .onceEach ∈ signs.map Prod.fst → primary.isAlternation = true)
    (h : (Phrase.primary primary).IsRead items) :
    let whole := tilde.toList.map .single ++ items ++ signs.map (.single ·.2)
    (Phrase.element (primary.node tilde.isSome (signs.map Prod.fst) (spanOf whole))).IsRead
      whole := by
  intro whole
  have honce : ([] ++ signs.map Prod.fst).Nodup := honce
  have htokens : (signs.map fun sign => Item.single sign.2).flatMap Item.tokens =
      signs.map Prod.snd := by
    rw [List.flatMap_map, List.map_eq_flatMap]
    rfl
  have hspan := spanOf_element hne tilde signs
  refine ⟨primary.span_node _ _ _, fun rules rule => ?_⟩
  rw [hspan, List.flatMap_append, htokens]
  cases tilde with
  | none =>
      have hitems := h rules (.inSequence rule) rule _ (.here rule (spanOf items).start)
      have hrest := Draft.runs_signs hsigns honce hbracket rules rule false
        ⟨(spanOf items).start, (spanOf items).stop⟩
      exact hitems.append hrest
  | some token =>
      have hmark : Draft.Reads ⟨rules, .inSequence rule⟩ token _ := .tilde (htilde token rfl)
      have hitems := h rules (.afterTilde rule ⟨true, token.span.start⟩) rule _
        (.behindTilde rule _ (spanOf items).start)
      have hrest := Draft.runs_signs hsigns honce hbracket rules rule true
        ⟨token.span.start, (spanOf items).stop⟩
      exact (hmark.runs.append hitems).append hrest

/-- A `|` and a sequence add a branch. -/
theorem isRead_another {branches : List (List Node)} {nodes : List Node}
    {before items : List Item} {bar : Token} (hbar : bar.isSymbol "|" = true)
    (hbefore : (Phrase.branches branches).IsRead before)
    (hitems : (Phrase.sequence nodes).IsRead items) :
    (Phrase.branches (branches ++ [nodes])).IsRead (before ++ .single bar :: items) := by
  obtain ⟨last, earlier, rfl, hlast, hbefore⟩ := hbefore
  obtain ⟨⟨final, _, hconcat, -⟩, hitems⟩ := hitems
  refine ⟨nodes, earlier ++ [last], rfl, ?_, fun rules rule opening outside outer => ?_⟩
  · rw [hconcat]
    exact List.concat_ne_nil _ _
  · have hbars : Draft.Reads ⟨rules, .inSequence ⟨rule.name, rule.define,
        ⟨opening, earlier.reverse, outside⟩ :: outer, last.reverse⟩⟩ bar _ :=
      .bar rfl (by simpa using hlast) hbar
    have hbehind := hitems rules ⟨rule.name, rule.define,
      ⟨opening, last :: earlier.reverse, outside⟩ :: outer, []⟩
    rw [List.append_nil] at hbehind
    rw [List.flatMap_append, List.reverse_concat]
    rw [List.reverse_reverse] at hbars
    exact (hbefore rules rule opening outside outer).append ⟨_, hbars, hbehind⟩

end Phrase

theorem Derives.isRead {phrase : Phrase} {items : List Item} (h : Derives phrase items) :
    phrase.IsRead items := by
  induction h with
  | literal h =>
      obtain ⟨hquote, hpayload, hclose⟩ := isLiteral_iff.1 h
      intro rules place rule opening hplace
      exact ⟨_, .quote hplace hquote, _, .payload hpayload, _, .endLiteral hclose, rfl⟩
  | category hcls htag =>
      intro rules place rule opening hplace
      exact (Draft.Reads.category hplace hcls htag).runs
  | reference hcls =>
      intro rules place rule opening hplace
      exact (Draft.Reads.reference hplace hcls).runs
  | alternation hopening hclosing _ ih => exact Phrase.isRead_alternation hopening hclosing ih
  | element hprimary htilde hsigns honce hbracket hwhole ih =>
      rw [hwhole]
      exact Phrase.isRead_element hprimary.items_ne_nil htilde hsigns honce hbracket ih
  | @one node items _ ih => exact ⟨⟨node, [], rfl, by rw [ih.1]⟩, ih.2⟩
  | @more nodes node before items hnodes hnode ihnodes ihnode =>
      refine ⟨⟨node, nodes, rfl, ?_⟩, fun rules rule => ?_⟩
      · rw [ihnode.1, spanOf_append hnodes.items_ne_nil hnode.items_ne_nil]
      · rw [List.flatMap_append, List.reverse_append]
        exact (ihnodes.2 rules rule).append (ihnode.2 rules _)
  | @branch nodes items hnodes ih =>
      obtain ⟨⟨last, before, hconcat, -⟩, hruns⟩ := ih
      refine ⟨nodes, [], rfl, ?_, fun rules rule opening outside outer => ?_⟩
      · rw [hconcat]
        exact List.concat_ne_nil _ _
      · have := hruns rules ⟨rule.name, rule.define, ⟨opening, [], outside⟩ :: outer, []⟩
        rw [List.append_nil] at this
        exact this
  | another _ hbar _ ihbranches ihnodes => exact Phrase.isRead_another hbar ihbranches ihnodes

-- ============================================================================
-- Rules and files
-- ============================================================================

/-- The items of a rule and the line end behind them add the rule. -/
theorem IsRule.runs {items : List Item} {rule : Rule} (h : IsRule items rule) {next : Token}
    (hnext : next.cls = .line ∨ next.cls = .ending) {table later : RuleTable}
    (hlater : later.rules = table.rules ++ [rule]) :
    Draft.Runs ⟨table, .betweenRules⟩ (items.flatMap Item.tokens ++ [next])
      ⟨later, .betweenRules⟩ := by
  cases h with
  | @intro name define nodes body _ hname hdigit hdefine hbody hwhole =>
      obtain ⟨⟨last, before, hnodes, hstop⟩, hruns⟩ := hbody.isRead
      have hisName : isRuleName name = true := by
        rw [isRuleName, hname, hdigit]
        rfl
      have hspan : spanOf items = ⟨name.span.start, last.span.stop⟩ := by
        rw [hwhole, hstop]
        exact spanOf_append (List.cons_ne_nil (.single name) [.single define]) hbody.items_ne_nil
      have hsequence := hruns table ⟨name, define, [], []⟩
      dsimp only at hsequence
      rw [List.append_nil] at hsequence
      have helements : nodes.reverse = last :: before.reverse := by
        rw [hnodes, List.reverse_concat]
      have hlater : later.rules = table.rules ++
          [OpenRule.complete ⟨name, define, [], nodes.reverse⟩ last] := by
        rw [hlater, hspan, OpenRule.complete]
        dsimp only
        rw [List.reverse_reverse]
      have hend : Draft.Reads ⟨table, .inSequence ⟨name, define, [], nodes.reverse⟩⟩ next
          ⟨later, .betweenRules⟩ := .endRule rfl hnext helements hlater
      have hread : Draft.Runs ⟨table, .betweenRules⟩ [name, define]
          ⟨table, .inSequence ⟨name, define, [], []⟩⟩ :=
        ⟨_, .name hisName, _, .define hdefine, rfl⟩
      rw [hwhole]
      exact hread.append (hsequence.append hend.runs)

theorem RuleTable.eq_of_rules_eq {table later : RuleTable} (h : table.rules = later.rules) :
    table = later := by
  cases table
  cases later
  dsimp only at h
  subst h
  rfl

/-- Between rules, line ends are stepped over. -/
theorem Place.mayStepOver_line {token : Token} (h : token.cls = .line) :
    Place.mayStepOver .betweenRules token = true :=
  mayStepOver_iff.2 ⟨trivial, .inr ⟨h, .inl rfl⟩⟩

/-- Between rules, neither a line end nor the end of the source leads elsewhere. -/
theorem Draft.Reads.eq_of_next {table : RuleTable} {next : Token} {later : Draft}
    (h : Draft.Reads ⟨table, .betweenRules⟩ next later)
    (hnext : next.cls = .line ∨ next.cls = .ending) : later = ⟨table, .betweenRules⟩ := by
  rcases hnext with hnext | hnext
  · exact h.unique (.skip (Place.mayStepOver_line hnext))
  · exact h.unique (.stop hnext)

/-- The items of a file complete a grammar with the rules that they stand for. -/
theorem IsFile.completes {items : List Item} {rules : List Rule} (h : IsFile items rules)
    {table later : RuleTable} (hlater : later.rules = table.rules ++ rules) :
    Draft.Completes ⟨table, .betweenRules⟩ (items.flatMap Item.tokens) later := by
  induction h generalizing table with
  | done hcls =>
      rw [List.append_nil] at hlater
      rw [RuleTable.eq_of_rules_eq hlater]
      exact (Draft.Reads.stop hcls).runs
  | @line token rest rules hcls hrest ih =>
      exact ⟨_, .skip (Place.mayStepOver_line hcls), ih hlater⟩
  | @rule items rest rule rules next hrule hnext hrest ih =>
      have hnodup := later.nodup_names
      rw [hlater, List.append_cons, List.map_append, List.nodup_append] at hnodup
      let middle : RuleTable := ⟨table.rules ++ [rule], hnodup.1⟩
      have hread := hrule.runs hnext (show middle.rules = table.rules ++ [rule] from rfl)
      have hrest : Draft.Completes ⟨middle, .betweenRules⟩ (next :: rest.flatMap Item.tokens) later :=
        ih (by rw [hlater, List.append_cons])
      -- Between rules, what ends a rule leads nowhere else.
      obtain ⟨_, hnextReads, hbehind⟩ := hrest
      rw [hnextReads.eq_of_next hnext] at hbehind
      rw [List.flatMap_append, List.flatMap_cons]
      have := hread.append hbehind
      rw [List.append_assoc] at this
      exact this

end TokenGrammar
