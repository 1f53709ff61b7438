/-
  TokenGrammar.Proofs.Grammar.Soundness

  Whatever completes a grammar is derived by the notation.  The invariant that a
  reader keeps (`Draft.Explained`): what has been read so far are complete rules, and
  within a rule whole elements in each of the sequences that are open.

  Main statement: the grammars that compile are those that the notation derives, with
  the rules that it derives (`Grammar.compile_eq_ok_iff`).
-/

import TokenGrammar.Proofs.Grammar.Completeness
import TokenGrammar.Proofs.Lexer.Tiling

namespace TokenGrammar

-- ============================================================================
-- What has been read
-- ============================================================================

/-- Whole elements, from the last one back. -/
inductive Elements : List Node → List Item → Prop where
  | nil : Elements [] []
  | add {before : List Node} {node : Node} {items own : List Item}
      (hbefore : Elements before items) (hnode : Derives (.element node) own) :
      Elements (node :: before) (items ++ own)

/-- Whole branches, each with the `|` behind it, from the last one back. -/
inductive Branches : List (List Node) → List Item → Prop where
  | nil : Branches [] []
  | add {before : List (List Node)} {nodes : List Node} {items own : List Item} {bar : Token}
      (hbefore : Branches before items) (hnodes : Derives (.sequence nodes) own)
      (hbar : bar.isSymbol "|" = true) :
      Branches (nodes :: before) (items ++ own ++ [.single bar])

/-- How an element begins whose `~` has been read if it has one, and whose primary
    begins at an offset. -/
structure Opening.BeginsWith (opening : Opening) (tilde : Option Token) (start : Nat) : Prop where
  eq : opening = ⟨tilde.isSome, (tilde.map (·.span.start)).getD start⟩
  isSymbol : ∀ token ∈ tilde, token.isSymbol "~" = true

/-- The body of a rule within some open alternations. -/
inductive Within : List OpenAlternation → List Node → List Item → Prop where
  | outermost {elements : List Node} {items : List Item} (h : Elements elements items) :
      Within [] elements items
  | inside {alternation : OpenAlternation} {outer : List OpenAlternation}
      {elements : List Node} {outside inner current : List Item} {tilde : Option Token}
      {bracket : Token} (houtside : Within outer alternation.before outside)
      (hopening : alternation.opening.BeginsWith tilde bracket.span.start)
      (hbracket : bracket.isSymbol "[" = true) (hinner : Branches alternation.branches inner)
      (hcurrent : Elements elements current) :
      Within (alternation :: outer) elements
        (outside ++ (tilde.toList.map .single ++ .single bracket :: (inner ++ current)))

/-- Items before which any file may stand, with the rules that they add to it. -/
def Precedes (consumed : List Item) (rules : List Rule) : Prop :=
  ∀ rest later, IsFile rest later → IsFile (consumed ++ rest) (rules ++ later)

/-- The beginning of a rule: its name, its `:=` and a body. -/
structure OpenRule.Begins (rule : OpenRule) (rules : RuleTable) (consumed body : List Item) :
    Prop where
  name : isRuleName rule.name = true
  define : rule.define.isSymbol ":=" = true
  within : Within rule.alternations rule.elements body
  consumed_eq : ∃ before, Precedes before rules.rules ∧
    consumed = before ++ .single rule.name :: .single rule.define :: body

/-- The items that may lead to a draft, as the notation sees them. -/
inductive Draft.Explained : Draft → List Item → Prop where
  | betweenRules {rules : RuleTable} {consumed : List Item} (h : Precedes consumed rules.rules) :
      Explained ⟨rules, .betweenRules⟩ consumed
  | afterName {rules : RuleTable} {before : List Item} {name : Token}
      (h : Precedes before rules.rules) (hname : isRuleName name = true) :
      Explained ⟨rules, .afterName name⟩ (before ++ [.single name])
  | inSequence {rules : RuleTable} {rule : OpenRule} {consumed body : List Item}
      (h : rule.Begins rules consumed body) : Explained ⟨rules, .inSequence rule⟩ consumed
  | afterTilde {rules : RuleTable} {rule : OpenRule} {consumed body : List Item} {tilde : Token}
      (h : rule.Begins rules consumed body) (htilde : tilde.isSymbol "~" = true) :
      Explained ⟨rules, .afterTilde rule ⟨true, tilde.span.start⟩⟩ (consumed ++ [.single tilde])

-- ============================================================================
-- Sequences, branches and elements
-- ============================================================================

theorem Elements.derives {elements : List Node} {items : List Item}
    (h : Elements elements items) (hne : elements ≠ []) :
    Derives (.sequence elements.reverse) items := by
  induction h with
  | nil => exact absurd rfl hne
  | @add before node items own hbefore hnode ih =>
      by_cases hfirst : before = []
      · subst hfirst
        cases hbefore
        exact .one hnode
      · rw [List.reverse_cons]
        exact .more (ih hfirst) hnode

theorem Branches.derives {branches : List (List Node)} {inner current : List Item}
    {nodes : List Node} (h : Branches branches inner) (hnodes : Derives (.sequence nodes) current) :
    Derives (.branches (nodes :: branches).reverse) (inner ++ current) := by
  induction h generalizing nodes current with
  | nil => exact .branch hnodes
  | add hbefore hown hbar ih =>
      rw [List.reverse_cons, List.append_assoc]
      exact .another (ih hown) hbar hnodes

theorem Within.add {alternations : List OpenAlternation} {elements : List Node}
    {body own : List Item} {node : Node} (h : Within alternations elements body)
    (hnode : Derives (.element node) own) : Within alternations (node :: elements) (body ++ own) := by
  cases h with
  | outermost h => exact .outermost (.add h hnode)
  | inside houtside hopening hbracket hinner hcurrent =>
      rw [List.append_assoc, List.append_assoc, List.cons_append, List.append_assoc]
      exact .inside houtside hopening hbracket hinner (.add hcurrent hnode)

/-- The last element read may be replaced by one that more items stand for. -/
theorem Within.extend {alternations : List OpenAlternation} {before : List Node}
    {body more : List Item} {node node' : Node} (h : Within alternations (node :: before) body)
    (hextend : ∀ own, Derives (.element node) own → Derives (.element node') (own ++ more)) :
    Within alternations (node' :: before) (body ++ more) := by
  cases h with
  | outermost h =>
      cases h with
      | add hbefore hnode =>
          rw [List.append_assoc]
          exact .outermost (.add hbefore (hextend _ hnode))
  | inside houtside hopening hbracket hinner hcurrent =>
      cases hcurrent with
      | add hbefore hnode =>
          rw [List.append_assoc, List.append_assoc, List.cons_append, List.append_assoc,
            List.append_assoc]
          exact .inside houtside hopening hbracket hinner (.add hbefore (hextend _ hnode))

/-- A primary with its `~` is an element without suffixes. -/
theorem Derives.bare {primary : Primary} {items : List Item}
    (h : Derives (.primary primary) items) {opening : Opening} {tilde : Option Token}
    (hopening : opening.BeginsWith tilde (spanOf items).start) :
    Derives (.element (primary.node opening.adjacent [] ⟨opening.start, (spanOf items).stop⟩))
      (tilde.toList.map .single ++ items) := by
  obtain ⟨heq, hsymbol⟩ := hopening
  have hspan : spanOf (tilde.toList.map .single ++ items) =
      ⟨opening.start, (spanOf items).stop⟩ := by
    rw [heq]
    cases tilde with
    | none => rfl
    | some token => exact spanOf_append (List.cons_ne_nil _ _) h.items_ne_nil
  have helement := Derives.element h hsymbol (fun _ hsign => (List.not_mem_nil hsign).elim)
    List.nodup_nil (fun hmem => (List.not_mem_nil hmem).elim) (List.append_nil _).symm
  rw [hspan] at helement
  rw [heq] at helement ⊢
  exact helement

/-- A sign behind an element adds a suffix to it. -/
theorem Derives.addSuffix {node node' : Node} {own : List Item} {suffix : Suffix} {token : Token}
    (h : Derives (.element node) own)
    (hsign : token.isSymbol (String.singleton suffix.sign) = true)
    (hadd : node.addSuffix suffix token = .ok node') :
    Derives (.element node') (own ++ [.single token]) := by
  have hne := h.items_ne_nil
  cases h with
  | @element primary items _ tilde signs hprimary htilde hsigns honce hbracket hwhole =>
      obtain ⟨hallowed, hfresh, rfl⟩ := Primary.addSuffix_node_eq_ok_iff.1 hadd
      let more := signs ++ [(suffix, token)]
      have hmap : more.map Prod.fst = signs.map Prod.fst ++ [suffix] := List.map_append
      have hmoreSigns : ∀ sign ∈ more, sign.2.isSymbol (String.singleton sign.1.sign) = true := by
        intro sign hmem
        rcases List.mem_append.1 hmem with hmem | hmem
        · exact hsigns sign hmem
        · rw [List.mem_singleton.1 hmem]
          exact hsign
      have hmoreOnce : (more.map Prod.fst).Nodup := by
        rw [hmap, List.nodup_append]
        refine ⟨honce, List.pairwise_singleton _ _, fun other hother _ hsuffix heq => ?_⟩
        rw [heq, List.mem_singleton.1 hsuffix] at hother
        exact hfresh hother
      have hmoreBracket : .onceEach ∈ more.map Prod.fst → primary.isAlternation = true := by
        intro hmem
        rw [hmap] at hmem
        rcases List.mem_append.1 hmem with hmem | hmem
        · exact hbracket hmem
        · exact hallowed (List.mem_singleton.1 hmem).symm
      have hmoreWhole : own ++ [.single token] =
          tilde.toList.map .single ++ items ++ more.map (.single ·.2) := by
        rw [hwhole, List.map_append, ← List.append_assoc]
        rfl
      have hspan : spanOf (own ++ [.single token]) = (spanOf own).through token.span :=
        spanOf_append hne (List.cons_ne_nil _ _)
      have helement :=
        Derives.element hprimary htilde hmoreSigns hmoreOnce hmoreBracket hmoreWhole
      rw [hmap, hspan] at helement
      exact helement

/-- A bracket opens an alternation of which nothing has been read. -/
theorem Within.opened {outer : List OpenAlternation} {elements : List Node}
    {outside : List Item} {opening : Opening} {tilde : Option Token} {bracket : Token}
    (h : Within outer elements outside) (hopening : opening.BeginsWith tilde bracket.span.start)
    (hbracket : bracket.isSymbol "[" = true) :
    Within (⟨opening, [], elements⟩ :: outer) []
      (outside ++ (tilde.toList.map .single ++ [.single bracket])) := by
  have houtside : Within outer (OpenAlternation.mk opening [] elements).before outside := h
  exact .inside houtside hopening hbracket .nil .nil

/-- A `|` ends a branch. -/
theorem Within.bar {alternation : OpenAlternation} {outer : List OpenAlternation}
    {elements : List Node} {body : List Item} {bar : Token}
    (h : Within (alternation :: outer) elements body) (helements : elements ≠ [])
    (hbar : bar.isSymbol "|" = true) :
    Within ({ alternation with branches := elements.reverse :: alternation.branches } :: outer) []
      (body ++ [.single bar]) := by
  cases h with
  | @inside _ _ _ outside inner current tilde bracket houtside hopening hbracket hinner hcurrent =>
      have hbranches := hinner.add (hcurrent.derives helements) hbar
      have hwithin : Within ({ alternation with
          branches := elements.reverse :: alternation.branches } :: outer) [] _ :=
        .inside houtside hopening hbracket hbranches .nil
      rw [List.append_nil] at hwithin
      rw [List.append_assoc, List.append_assoc, List.cons_append]
      exact hwithin

/-- A closing bracket makes an element of an alternation. -/
theorem Within.close {alternation : OpenAlternation} {outer : List OpenAlternation}
    {elements : List Node} {body : List Item} {closing : Token}
    (h : Within (alternation :: outer) elements body) (helements : elements ≠ [])
    (hclosing : closing.isSymbol "]" = true) :
    Within outer
      (.alternation alternation.opening.modifiers ⟨alternation.opening.start, closing.span.stop⟩
        (elements.reverse :: alternation.branches).reverse false :: alternation.before)
      (body ++ [.single closing]) := by
  cases h with
  | @inside _ _ _ outside inner current tilde bracket houtside hopening hbracket hinner hcurrent =>
      have hbranches := hinner.derives (hcurrent.derives helements)
      have hprimary := Derives.alternation hbracket hclosing hbranches
      have helement := hprimary.bare hopening
      have hstop : (spanOf (.single bracket :: (inner ++ current ++ [.single closing]))).stop =
          closing.span.stop := stop_spanOf_concat (.single bracket :: (inner ++ current)) _
      rw [hstop] at helement
      rw [List.append_assoc, List.append_assoc, List.cons_append]
      exact houtside.add helement

-- ============================================================================
-- One item after another
-- ============================================================================

namespace Draft

variable {draft later : Draft} {token : Token} {consumed : List Item} {rules : RuleTable}
  {rule : OpenRule}

theorem Explained.betweenItems (h : draft.Explained consumed) : draft.place.BetweenItems := by
  cases h <;> trivial

/-- Where an element is expected, a rule has begun. -/
theorem Explained.expects {place : Place} {start : Nat} {opening : Opening}
    (h : Explained ⟨rules, place⟩ consumed) (hplace : place.Expects start rule opening) :
    ∃ body outside tilde, rule.Begins rules outside body ∧ opening.BeginsWith tilde start ∧
      consumed = outside ++ tilde.toList.map .single := by
  cases hplace with
  | here =>
      cases h with
      | @inSequence _ _ _ body h =>
          refine ⟨body, consumed, none, h, ⟨rfl, fun _ hmem => nomatch hmem⟩, ?_⟩
          exact (List.append_nil consumed).symm
  | behindTilde =>
      cases h with
      | @afterTilde _ _ outside body tilde h htilde =>
          refine ⟨body, outside, some tilde, h, ⟨rfl, fun token hmem => ?_⟩, rfl⟩
          rw [← Option.some.inj hmem]
          exact htilde

end Draft

/-- A rule that has begun may go on. -/
theorem OpenRule.Begins.append {rule rule' : OpenRule} {rules : RuleTable}
    {consumed body more : List Item} (h : rule.Begins rules consumed body)
    (hname : rule'.name = rule.name) (hdefine : rule'.define = rule.define)
    (hwithin : Within rule'.alternations rule'.elements (body ++ more)) :
    rule'.Begins rules (consumed ++ more) (body ++ more) := by
  obtain ⟨hisName, hsymbol, -, before, hbefore, heq⟩ := h
  refine ⟨by rw [hname]; exact hisName, by rw [hdefine]; exact hsymbol, hwithin, before,
    hbefore, ?_⟩
  rw [hname, hdefine, heq, List.append_assoc]
  rfl

namespace Draft

variable {draft later : Draft} {token : Token} {consumed : List Item} {rules : RuleTable}
  {rule : OpenRule}

/-- The items of a primary add an element. -/
theorem Explained.addPrimary {place : Place} {opening : Opening} {primary : Primary}
    {own : List Item} {start : Nat} (h : Explained ⟨rules, place⟩ consumed)
    (hplace : place.Expects start rule opening) (hown : Derives (.primary primary) own)
    (hstart : (spanOf own).start = start) :
    Explained ⟨rules, .inSequence (rule.add
      (primary.node opening.adjacent [] ⟨opening.start, (spanOf own).stop⟩))⟩
      (consumed ++ own) := by
  subst hstart
  obtain ⟨body, outside, tilde, hbegins, hopening, rfl⟩ := h.expects hplace
  rw [List.append_assoc]
  exact .inSequence (hbegins.append rfl rfl (hbegins.within.add (hown.bare hopening)))

end Draft

theorem Precedes.concat_line {consumed : List Item} {rules : List Rule} {token : Token}
    (h : Precedes consumed rules) (hcls : token.cls = .line) :
    Precedes (consumed ++ [.single token]) rules := by
  intro rest later hrest
  rw [List.append_assoc]
  exact h _ _ (.line hcls hrest)

/-- A rule that ends at a line end or at the end of the source is complete. -/
theorem OpenRule.Begins.isFile {rules : RuleTable} {rule : OpenRule} {consumed body : List Item}
    {last : Node} {before : List Node} (h : rule.Begins rules consumed body)
    (halternations : rule.alternations = []) (helements : rule.elements = last :: before)
    {next : Token} {rest : List Item} {later : List Rule}
    (hnext : next.cls = .line ∨ next.cls = .ending) (hrest : IsFile (.single next :: rest) later) :
    IsFile (consumed ++ .single next :: rest) (rules.rules ++ rule.complete last :: later) := by
  obtain ⟨hname, hdefine, hwithin, outside, hprecedes, heq⟩ := h
  rw [halternations, helements] at hwithin
  cases hwithin with
  | outermost hwithin =>
      have hderives := hwithin.derives (List.cons_ne_nil _ _)
      rw [isRuleName, Bool.and_eq_true, beq_iff_eq, Bool.not_eq_true'] at hname
      obtain ⟨⟨final, earlier, hconcat, hstop⟩, -⟩ := hderives.isRead
      rw [List.reverse_cons] at hconcat
      have hlast : last = final := List.singleton_inj.1 (List.append_inj' hconcat rfl).2
      have hspan : spanOf (.single rule.name :: .single rule.define :: body) =
          ⟨rule.name.span.start, last.span.stop⟩ := by
        rw [hlast, hstop]
        exact spanOf_append (List.cons_ne_nil (.single rule.name) [.single rule.define])
          hderives.items_ne_nil
      have hrule := IsRule.intro hname.1 hname.2 hdefine hderives rfl
      rw [hspan, ← helements] at hrule
      have hfile := hprecedes _ _ (.rule hrule hnext hrest)
      rw [heq, List.append_assoc]
      exact hfile

namespace Draft

variable {draft later : Draft} {token : Token} {consumed : List Item} {rules : RuleTable}
  {rule : OpenRule}

/-- A token that is an item of its own, and no line end within brackets, keeps the
    invariant unless it is a quote. -/
theorem Explained.single (h : draft.Explained consumed) (hreads : Reads draft token later)
    (hproper : token.isSkippable false = false) (hcls : token.cls ≠ .ending)
    (hline : token.cls = .line → draft.place.depth = 0)
    (hquote : ¬ (openingQuote? token).isSome = true) :
    later.Explained (consumed ++ [.single token]) := by
  cases hreads with
  | skip hskip =>
      have hnot : ¬ token.isSkippable false = true := by
        rw [hproper]
        exact Bool.false_ne_true
      obtain ⟨hcls, hplace⟩ := (Place.mayStepOver_iff.1 hskip).2.resolve_left hnot
      obtain ⟨rules, place⟩ := draft
      rcases hplace with rfl | hdepth
      · cases h with
        | betweenRules h => exact .betweenRules (h.concat_line hcls)
      · exact absurd (hline hcls) (Nat.ne_of_gt hdepth)
  | stop hending => exact absurd hending hcls
  | name hname =>
      cases h with
      | betweenRules h => exact .afterName h hname
  | @define _ name _ hdefine =>
      cases h with
      | @afterName _ before _ h hname =>
          have hbody : Within [] [] [] := .outermost .nil
          have hbegins : OpenRule.Begins ⟨name, token, [], []⟩ _
              (before ++ [.single name] ++ [.single token]) [] :=
            ⟨hname, hdefine, hbody, before, h, List.append_assoc _ _ _⟩
          exact .inSequence hbegins
  | endRule halternations hnext helements hlater =>
      have hline : token.cls = .line := hnext.resolve_right hcls
      cases h with
      | inSequence h =>
          refine .betweenRules fun rest rules hrest => ?_
          rw [hlater, List.append_assoc, List.append_assoc]
          exact h.isFile halternations helements hnext (.line hline hrest)
  | bar halternations helements hbar =>
      cases h with
      | inSequence h =>
          have hwithin := h.within
          rw [halternations] at hwithin
          exact .inSequence (h.append rfl rfl (hwithin.bar helements hbar))
  | close halternations helements hclose =>
      cases h with
      | inSequence h =>
          have hwithin := h.within
          rw [halternations] at hwithin
          exact .inSequence (h.append rfl rfl (hwithin.close helements hclose))
  | suffix helements hsuffix hadd =>
      have hsign := Suffix.isSymbol_of_ofToken? hsuffix
      cases h with
      | inSequence h =>
          have hwithin := h.within
          rw [helements] at hwithin
          have hextended := hwithin.extend fun own hown => hown.addSuffix hsign hadd
          exact .inSequence (h.append rfl rfl hextended)
  | tilde htilde =>
      cases h with
      | inSequence h => exact .afterTilde h htilde
  | quote hplace h => exact absurd h hquote
  | bracket hplace hbracket =>
      obtain ⟨body, outside, tilde, hbegins, hopening, rfl⟩ := h.expects hplace
      rw [List.append_assoc]
      exact .inSequence (hbegins.append rfl rfl (hbegins.within.opened hopening hbracket))
  | category hplace hkeyword htag =>
      have hown : Derives (.primary _) [.single token] := .category hkeyword htag
      exact h.addPrimary hplace hown rfl
  | reference hplace hidentifier =>
      have hown : Derives (.primary _) [.single token] := .reference hidentifier
      exact h.addPrimary hplace hown rfl
  | payload => cases h
  | endLiteral => cases h

/-- The mark at the end of the source ends a file. -/
theorem Explained.isFile_of_ending {table : RuleTable} (h : draft.Explained consumed)
    (hreads : Reads draft token ⟨table, .betweenRules⟩) (hcls : token.cls = .ending) :
    IsFile (consumed ++ [.single token]) table.rules := by
  have hdone : IsFile [.single token] [] := .done hcls
  cases hreads with
  | skip hskip =>
      rw [Place.mayStepOver_eq_false _ (by rw [hcls]; decide)] at hskip
      cases hskip
  | stop =>
      cases h with
      | betweenRules h =>
          have hfile := h _ _ hdone
          rw [List.append_nil] at hfile
          exact hfile
  | endRule halternations hnext helements hlater =>
      cases h with
      | inSequence h =>
          rw [hlater]
          exact h.isFile halternations helements hnext hdone

/-- The tokens of a literal keep the invariant. -/
theorem Explained.literal {quote payload close : Token} {rest : List Token} {table : RuleTable}
    (h : draft.Explained consumed) (hliteral : isLiteral quote payload close = true)
    (hcompletes : draft.Completes (quote :: payload :: close :: rest) table) :
    ∃ later : Draft, later.Explained (consumed ++ [.literal quote payload close]) ∧
      later.place.depth = draft.place.depth ∧ later.Completes rest table := by
  obtain ⟨first, hquote, second, hpayload, third, hclose, hrest⟩ := hcompletes
  obtain ⟨rule, opening, rfl, hplace⟩ := hquote.quoted h.betweenItems (isLiteral_iff.1 hliteral).1
  obtain ⟨-, rfl⟩ := hpayload.payload_eq
  obtain ⟨-, rfl⟩ := hclose.endLiteral_eq
  exact ⟨_, h.addPrimary hplace (.literal hliteral) rfl, (Place.depth_of_expects hplace).symm, hrest⟩

/-- A quote that is no literal's leads to no grammar. -/
theorem Reads.not_quote {items : List Item} {table : RuleTable} (h : Reads draft token later)
    (hbetween : draft.place.BetweenItems) (hproper : ∀ item ∈ items, item.Proper)
    (hcompletes : later.Completes (items.flatMap Item.tokens) table) :
    ¬ (openingQuote? token).isSome = true := by
  intro hquote
  obtain ⟨rule, opening, rfl, -⟩ := h.quoted hbetween hquote
  exact stuck_items hproper token hquote _ _ _ _ hcompletes

/-- Items that complete a grammar complete a file.  The induction is on the items that
    are left, with line ends within brackets among them. -/
theorem Explained.isFile {items : List Item} {ending : Token} {table : RuleTable}
    (h : draft.Explained consumed) (hproper : ∀ item ∈ items, item.Proper)
    (hinside : ∀ token, Item.single token ∈ items → token.cls ≠ .ending)
    (hending : ending.cls = .ending)
    (hcompletes : draft.Completes
      ((joinLines draft.place.depth items ++ [Item.single ending]).flatMap Item.tokens) table) :
    IsFile (consumed ++ (joinLines draft.place.depth items ++ [.single ending])) table.rules := by
  induction items generalizing draft consumed with
  | nil =>
      obtain ⟨later, hreads, rfl⟩ := hcompletes
      exact h.isFile_of_ending hreads hending
  | cons item rest ih =>
      have hrest : ∀ item ∈ rest, item.Proper := fun item hmem =>
        hproper item (List.mem_cons_of_mem _ hmem)
      have hrestInside : ∀ token, Item.single token ∈ rest → token.cls ≠ .ending :=
        fun token hmem => hinside token (List.mem_cons_of_mem _ hmem)
      rw [joinLines] at hcompletes ⊢
      split at hcompletes
      · next hdropped =>
        rw [if_pos hdropped]
        exact ih h hrest hrestInside hcompletes
      · next hkept =>
        rw [if_neg hkept]
        cases item with
        | literal quote payload close =>
            obtain ⟨later, hlater, hdepth, hcompletes⟩ :=
              h.literal (hproper _ List.mem_cons_self) hcompletes
            rw [Item.depthBehind, ← hdepth] at hcompletes ⊢
            have hfile := ih hlater hrest hrestInside hcompletes
            rw [List.append_assoc] at hfile
            exact hfile
        | single token =>
            have hline : token.cls = .line → draft.place.depth = 0 := by
              intro hcls
              by_contra hdepth
              apply hkept
              rw [Item.isLine, hcls, decide_eq_true (Nat.pos_of_ne_zero hdepth)]
              rfl
            obtain ⟨later, hreads, hcompletes⟩ := hcompletes
            have hleft : ∀ item ∈ joinLines ((Item.single token).depthBehind draft.place.depth)
                rest ++ [.single ending], item.Proper := by
              refine List.forall_mem_append.2 ⟨fun item hmem => ?_, List.forall_mem_singleton.2 ?_⟩
              · exact hrest item (Item.mem_of_mem_joinLines hmem)
              · rw [Item.Proper, Token.isSkippable, hending]
            have hquote := hreads.not_quote h.betweenItems hleft hcompletes
            have hlater := h.single hreads (hproper _ List.mem_cons_self)
              (hinside token List.mem_cons_self) hline hquote
            rcases hreads.between h.betweenItems with ⟨-, hdepth⟩ | ⟨hsign, -⟩
            · rw [← hdepth] at hcompletes ⊢
              have hfile := ih hlater hrest hrestInside hcompletes
              rw [List.append_assoc] at hfile
              exact hfile
            · exact absurd hsign hquote

end Draft

-- ============================================================================
-- Sources
-- ============================================================================

/-- A source defines some rules if and only if its items are a file with these rules. -/
theorem RuleTable.ofTokens_tokenize_eq_ok_iff {source : String} {table : RuleTable} :
    RuleTable.ofTokens (Grammar.sourceLexer.tokenize source) = .ok table ↔
      IsFile (sourceItems source) table.rules := by
  have htiles := Grammar.sourceLexer.tiles_tokenize source
  unfold sourceItems
  generalize Grammar.sourceLexer.tokenize source = stream at htiles ⊢
  rw [RuleTable.ofTokens_eq_ok_iff htiles.ending, Draft.completes_toItems]
  constructor
  · intro h
    rw [TokenStream.toList, Item.ofTokens_concat htiles.ending, joinLines_concat htiles.ending]
      at h ⊢
    have hblank : Draft.blank.Explained [] := .betweenRules fun rest later hrest => hrest
    exact hblank.isFile (fun _ => Item.proper_of_mem_ofTokens)
      (fun token hmem =>
        htiles.cls_ne_ending_of_mem (Item.mem_of_mem_ofTokens hmem List.mem_cons_self))
      htiles.ending h
  · intro h
    have hlater : table.rules = RuleTable.empty.rules ++ table.rules := rfl
    exact h.completes hlater

/-- A grammar is that of the rules that the tokens of its source define. -/
theorem Grammar.compile_eq_ok_iff_ofTokens {source : String} {grammar : Grammar} :
    compile source = .ok grammar ↔
      ∃ table, RuleTable.ofTokens (sourceLexer.tokenize source) = .ok table ∧
        grammar = .ofRules table := by
  unfold compile
  constructor
  · intro h
    cases htable : RuleTable.ofTokens (sourceLexer.tokenize source) with
    | error error =>
        rw [htable] at h
        cases h
    | ok table =>
        rw [htable] at h
        exact ⟨table, rfl, (Except.ok.inj h).symm⟩
  · rintro ⟨table, htable, rfl⟩
    rw [htable]
    rfl

theorem Grammar.compile_eq_ok {source : String} {grammar : Grammar} :
    compile source = .ok grammar ↔
      ∃ table : RuleTable, IsFile (sourceItems source) table.rules ∧ grammar = .ofRules table := by
  simp only [compile_eq_ok_iff_ofTokens, RuleTable.ofTokens_tokenize_eq_ok_iff]

/-- The sources that compile are those whose items the notation derives, with distinct
    names, and they compile to the rules of the derivation in their order. -/
theorem Grammar.compile_eq_ok_iff (source : String) (grammar : Grammar) :
    compile source = .ok grammar ↔
      ∃ (rules : List Rule) (h : (rules.map Rule.name).Nodup),
        IsFile (sourceItems source) rules ∧ grammar = .ofRules ⟨rules, h⟩ := by
  rw [compile_eq_ok]
  constructor
  · rintro ⟨table, hfile, rfl⟩
    exact ⟨table.rules, table.nodup_names, hfile, rfl⟩
  · rintro ⟨rules, hnodup, hfile, rfl⟩
    exact ⟨⟨rules, hnodup⟩, hfile, rfl⟩

end TokenGrammar
