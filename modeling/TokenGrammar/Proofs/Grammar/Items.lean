/-
  TokenGrammar.Proofs.Grammar.Items

  Reading the tokens of a grammar's source is reading its items: blanks and
  comments lead nowhere, nor do line ends within brackets, and a quote that no
  literal follows leads to no grammar.

  Main statement: `Draft.completes_toItems`.
-/

import TokenGrammar.Proofs.Grammar.Notation
import TokenGrammar.Proofs.Grammar.Reading

namespace TokenGrammar

namespace Place

/-- How many brackets are open at a place. -/
def depth : Place → Nat
  | .betweenRules => 0
  | .afterName _ => 0
  | .inSequence rule => rule.alternations.length
  | .afterTilde rule _ => rule.alternations.length
  | .afterQuote rule _ _ => rule.alternations.length
  | .afterPayload rule _ _ _ => rule.alternations.length

/-- Whether a place is not within a literal. -/
def BetweenItems : Place → Prop
  | .afterQuote .. => False
  | .afterPayload .. => False
  | _ => True

/-- Between items, whatever is no item may be stepped over, and a line end where it
    does not count. -/
theorem mayStepOver_iff {place : Place} {token : Token} :
    place.mayStepOver token = true ↔ place.BetweenItems ∧
      (token.isSkippable false = true ∨
        token.cls = .line ∧ (place = .betweenRules ∨ 0 < place.depth)) := by
  have hinside : ∀ rule : OpenRule,
      rule.inAlternation = true ↔ 0 < rule.alternations.length := by
    intro rule
    rw [OpenRule.inAlternation, Bool.not_eq_true', List.isEmpty_eq_false_iff, List.length_pos_iff]
  cases place with
  | betweenRules => simp [mayStepOver, BetweenItems, Token.isSkippable_iff true]
  | afterName name => simp [mayStepOver, BetweenItems, depth]
  | inSequence rule =>
      simp [mayStepOver, BetweenItems, depth, Token.isSkippable_iff rule.inAlternation, hinside]
  | afterTilde rule opening =>
      simp [mayStepOver, BetweenItems, depth, Token.isSkippable_iff rule.inAlternation, hinside]
  | afterQuote => simp [mayStepOver, BetweenItems]
  | afterPayload => simp [mayStepOver, BetweenItems]

theorem cls_ne_symbol_of_mayStepOver {place : Place} {token : Token}
    (h : place.mayStepOver token = true) : token.cls ≠ .symbol := by
  intro hcls
  rw [place.mayStepOver_eq_false (by rw [hcls]; decide)] at h
  cases h

theorem depth_of_expects {place : Place} {start : Nat} {rule : OpenRule} {opening : Opening}
    (h : place.Expects start rule opening) : place.depth = rule.alternations.length := by
  cases h with
  | here => rfl
  | behindTilde => rfl

end Place

namespace Item

theorem depthBehind_of_cls_ne {token : Token} (h : token.cls ≠ .symbol) (depth : Nat) :
    (single token).depthBehind depth = depth := by
  rw [depthBehind, Token.isSymbol_eq_false_of_cls h, Token.isSymbol_eq_false_of_cls h]
  rfl

theorem depthBehind_of_isSymbol {token : Token} {text : String} (h : token.isSymbol text = true)
    (hopen : text ≠ "[") (hclose : text ≠ "]") (depth : Nat) :
    (single token).depthBehind depth = depth := by
  rw [depthBehind, Token.isSymbol_eq_false_of_ne h hopen, Token.isSymbol_eq_false_of_ne h hclose]
  rfl

end Item

namespace Draft

variable {draft later other : Draft} {token : Token} {rules : RuleTable}

/-- A token leads to one draft only. -/
theorem Reads.unique (h : Reads draft token later) (h' : Reads draft token other) :
    later = other := by
  have hlater : read [] draft token = .ok later := read_eq_ok_iff.2 h
  have hother : read [] draft token = .ok other := read_eq_ok_iff.2 h'
  rw [hlater] at hother
  exact Except.ok.inj hother

theorem completes_skip {rest : List Token} (h : draft.place.mayStepOver token = true) :
    draft.Completes (token :: rest) rules ↔ draft.Completes rest rules := by
  constructor
  · rintro ⟨later, hreads, hrest⟩
    rw [(Reads.skip h).unique hreads]
    exact hrest
  · exact fun hrest => ⟨draft, .skip h, hrest⟩

/-- Behind a token that is an item of its own, reading stands between items again,
    with as many brackets open as the item says, or behind a quote. -/
theorem Reads.between (h : Reads draft token later) (hbetween : draft.place.BetweenItems) :
    (later.place.BetweenItems ∧
      later.place.depth = (Item.single token).depthBehind draft.place.depth) ∨
    ((openingQuote? token).isSome = true ∧
      ∃ rule opening, later.place = .afterQuote rule opening token) := by
  cases h with
  | skip h =>
      have hcls := Place.cls_ne_symbol_of_mayStepOver h
      exact .inl ⟨hbetween, (Item.depthBehind_of_cls_ne hcls _).symm⟩
  | stop h =>
      exact .inl ⟨trivial, (Item.depthBehind_of_cls_ne (by rw [h]; decide) _).symm⟩
  | name h =>
      rw [isRuleName, Bool.and_eq_true, beq_iff_eq] at h
      exact .inl ⟨trivial, (Item.depthBehind_of_cls_ne (by rw [h.1]; decide) _).symm⟩
  | define h =>
      exact .inl ⟨trivial, (Item.depthBehind_of_isSymbol h (by decide) (by decide) _).symm⟩
  | endRule halternations hcls =>
      have hsymbol : token.cls ≠ .symbol := by
        rcases hcls with hcls | hcls
        · rw [hcls]
          decide
        · rw [hcls]
          decide
      refine .inl ⟨trivial, ?_⟩
      rw [Item.depthBehind_of_cls_ne hsymbol, Place.depth, Place.depth, halternations]
      rfl
  | bar halternations helements h =>
      refine .inl ⟨trivial, ?_⟩
      rw [Item.depthBehind_of_isSymbol h (by decide) (by decide), Place.depth, Place.depth,
        halternations]
      rfl
  | close halternations helements h =>
      refine .inl ⟨trivial, ?_⟩
      rw [Item.depthBehind, Token.isSymbol_eq_false_of_ne h (by decide), h, Place.depth,
        Place.depth, halternations]
      rfl
  | @suffix _ _ _ _ _ _ suffix helements h =>
      have hsign := Suffix.isSymbol_of_ofToken? h
      refine .inl ⟨trivial, ?_⟩
      rw [Item.depthBehind_of_isSymbol hsign (by cases suffix <;> decide)
        (by cases suffix <;> decide)]
      rfl
  | tilde h =>
      exact .inl ⟨trivial, (Item.depthBehind_of_isSymbol h (by decide) (by decide) _).symm⟩
  | quote hplace h => exact .inr ⟨h, _, _, rfl⟩
  | bracket hplace h =>
      refine .inl ⟨trivial, ?_⟩
      rw [Item.depthBehind, h, Place.depth_of_expects hplace]
      rfl
  | category hplace hcls =>
      refine .inl ⟨trivial, ?_⟩
      rw [Item.depthBehind_of_cls_ne (by rw [hcls]; decide), Place.depth_of_expects hplace]
      rfl
  | reference hplace hcls =>
      refine .inl ⟨trivial, ?_⟩
      rw [Item.depthBehind_of_cls_ne (by rw [hcls]; decide), Place.depth_of_expects hplace]
      rfl
  | payload h => cases hbetween
  | endLiteral h => cases hbetween

-- ============================================================================
-- Literals
-- ============================================================================

/-- A quote between items opens a literal. -/
theorem Reads.quoted (h : Reads draft token later) (hbetween : draft.place.BetweenItems)
    (hquote : (openingQuote? token).isSome = true) :
    ∃ rule opening, later = ⟨draft.rules, .afterQuote rule opening token⟩ ∧
      draft.place.Expects token.span.start rule opening := by
  have hcls := (quote_of_openingQuote? hquote).1
  have hbegins : BeginsElement token := .inl hquote
  have hsymbol : ∀ {text}, token.isSymbol text = true →
      text.toList.head?.any literalQuotes.contains = false → False := by
    intro text htrue htext
    rw [isSymbol_eq_false_of_openingQuote? hquote htext] at htrue
    cases htrue
  cases h with
  | quote hplace h => exact ⟨_, _, rfl, hplace⟩
  | skip h => exact absurd hcls (Place.cls_ne_symbol_of_mayStepOver h)
  | stop h =>
      rw [hcls] at h
      cases h
  | name h =>
      rw [isRuleName, Bool.and_eq_true, beq_iff_eq, hcls] at h
      cases h.1
  | endRule halternations h =>
      rw [hcls] at h
      rcases h with h | h <;> cases h
  | define h => exact (hsymbol h (by decide)).elim
  | bar halternations helements h => exact (hsymbol h (by decide)).elim
  | close halternations helements h => exact (hsymbol h (by decide)).elim
  | tilde h => exact (hsymbol h (by decide)).elim
  | bracket hplace h => exact (hsymbol h (by decide)).elim
  | suffix helements h =>
      rw [hbegins.ofToken?_eq_none] at h
      cases h
  | category hplace h =>
      rw [hcls] at h
      cases h
  | reference hplace h =>
      rw [hcls] at h
      cases h
  | payload h => cases hbetween
  | endLiteral h => cases hbetween

theorem Reads.payload_eq {rule : OpenRule} {opening : Opening} {quote : Token}
    (h : Reads ⟨rules, .afterQuote rule opening quote⟩ token later) :
    token.cls = .comment ∧ later = ⟨rules, .afterPayload rule opening quote token⟩ := by
  cases h with
  | skip h => cases h
  | payload h => exact ⟨h, rfl⟩
  | quote hplace => cases hplace
  | bracket hplace => cases hplace
  | category hplace => cases hplace
  | reference hplace => cases hplace

theorem Reads.endLiteral_eq {rule : OpenRule} {opening : Opening} {quote payload : Token}
    (h : Reads ⟨rules, .afterPayload rule opening quote payload⟩ token later) :
    token.isSymbol quote.text = true ∧
      later = ⟨rules, .inSequence (rule.add (.terminal opening.modifiers
        ⟨opening.start, token.span.stop⟩
        (.literal (String.ofList (unescape payload.text.toList)))))⟩ := by
  cases h with
  | skip h => cases h
  | endLiteral h => exact ⟨h, rfl⟩
  | quote hplace => cases hplace
  | bracket hplace => cases hplace
  | category hplace => cases hplace
  | reference hplace => cases hplace

/-- What follows a quote completes a grammar only if it makes the quote a literal. -/
theorem Completes.afterQuote {rule : OpenRule} {opening : Opening} {quote : Token}
    {rest : List Token} {table : RuleTable}
    (hquote : (openingQuote? quote).isSome = true)
    (h : Completes ⟨rules, .afterQuote rule opening quote⟩ rest table) :
    ∃ payload close behind, rest = payload :: close :: behind ∧
      isLiteral quote payload close = true := by
  cases rest with
  | nil =>
      exact nomatch (Draft.mk.inj h).2
  | cons payload rest =>
      obtain ⟨middle, hpayload, h⟩ := h
      obtain ⟨hcls, rfl⟩ := hpayload.payload_eq
      cases rest with
      | nil =>
          exact nomatch (Draft.mk.inj h).2
      | cons close behind =>
          obtain ⟨last, hclose, -⟩ := h
          exact ⟨payload, close, behind, rfl, isLiteral_iff.2 ⟨hquote, hcls, hclose.endLiteral_eq.1⟩⟩

end Draft

-- ============================================================================
-- Tokens and items
-- ============================================================================

namespace Item

/-- Whether an item is one that tokens can make up. -/
def Proper : Item → Prop
  | single token => token.isSkippable false = false
  | literal quote payload close => isLiteral quote payload close = true

theorem proper_of_mem_ofToken {token : Token} {item : Item} (h : item ∈ ofToken token) :
    item.Proper := by
  unfold ofToken at h
  split at h
  · cases h
  · next hskip =>
    rw [List.mem_singleton.1 h]
    exact Bool.eq_false_iff.2 hskip

theorem proper_of_mem_ofTokens {tokens : List Token} {item : Item} (h : item ∈ ofTokens tokens) :
    item.Proper := by
  fun_induction ofTokens tokens with
  | case1 => cases h
  | case2 quote payload close rest hliteral ih =>
      rcases List.mem_cons.1 h with rfl | h
      · exact hliteral
      · exact ih h
  | case3 quote payload close rest hliteral ih =>
      rcases List.mem_append.1 h with h | h
      · exact proper_of_mem_ofToken h
      · exact ih h
  | case4 token rest _ ih =>
      rcases List.mem_append.1 h with h | h
      · exact proper_of_mem_ofToken h
      · exact ih h

theorem mem_of_mem_joinLines {depth : Nat} {items : List Item} {item : Item}
    (h : item ∈ joinLines depth items) : item ∈ items := by
  induction items generalizing depth with
  | nil => exact h
  | cons first rest ih =>
      rw [joinLines] at h
      split at h
      · exact List.mem_cons_of_mem first (ih h)
      · rcases List.mem_cons.1 h with rfl | h
        · exact List.mem_cons_self
        · exact List.mem_cons_of_mem first (ih h)

end Item

namespace Item

variable {tokens : List Token} {ending : Token}

theorem ofToken_of_ending (h : ending.cls = .ending) : ofToken ending = [.single ending] := by
  rw [ofToken, Token.isSkippable_eq_false false (by rw [h]; decide)]
  rfl

/-- A token that begins no literal is an item of its own, or none. -/
theorem ofTokens_cons {token : Token} {rest : List Token}
    (h : ∀ payload close behind, rest = payload :: close :: behind →
      isLiteral token payload close = false) :
    ofTokens (token :: rest) = ofToken token ++ ofTokens rest := by
  rcases rest with _ | ⟨payload, _ | ⟨close, behind⟩⟩
  · rfl
  · rfl
  · rw [ofTokens, h payload close behind rfl]
    exact if_neg Bool.false_ne_true

/-- The mark at the end is the last item. -/
theorem ofTokens_concat (h : ending.cls = .ending) :
    ofTokens (tokens ++ [ending]) = ofTokens tokens ++ [.single ending] := by
  have hclose : ∀ quote payload, isLiteral quote payload ending = false := by
    intro quote payload
    rw [isLiteral, Token.isSymbol_eq_false_of_cls (by rw [h]; decide), Bool.and_false]
  fun_induction ofTokens tokens with
  | case1 => exact (List.append_nil _).trans (ofToken_of_ending h)
  | case2 quote payload close rest hliteral ih =>
      rw [List.cons_append, List.cons_append, List.cons_append, ofTokens, if_pos hliteral, ih]
      rfl
  | case3 quote payload close rest hliteral ih =>
      rw [List.cons_append, ofTokens_cons, ih, List.append_assoc]
      rintro payload' close' behind ⟨⟩
      exact Bool.eq_false_iff.2 hliteral
  | case4 token rest hshort ih =>
      rw [List.cons_append, ofTokens_cons, ih, List.append_assoc]
      rcases rest with _ | ⟨payload, _ | ⟨close, behind⟩⟩
      · rintro payload' close' behind ⟨⟩
      · rintro payload' close' behind ⟨⟩
        exact hclose token payload
      · exact absurd rfl (hshort payload close behind)

/-- The tokens of items are among the tokens that make them up. -/
theorem mem_of_mem_ofTokens {item : Item} {token : Token} (h : item ∈ ofTokens tokens)
    (htoken : token ∈ item.tokens) : token ∈ tokens := by
  have hone : ∀ other, item ∈ ofToken other → token = other := by
    intro other hmem
    unfold ofToken at hmem
    split at hmem
    · cases hmem
    · rw [List.mem_singleton.1 hmem] at htoken
      exact List.mem_singleton.1 htoken
  fun_induction ofTokens tokens with
  | case1 => cases h
  | case2 quote payload close rest hliteral ih =>
      rcases List.mem_cons.1 h with rfl | h
      · exact List.mem_append_left rest htoken
      · exact List.mem_append_right [quote, payload, close] (ih h)
  | case3 quote payload close rest hliteral ih =>
      rcases List.mem_append.1 h with h | h
      · rw [hone quote h]
        exact List.mem_cons_self
      · exact List.mem_cons_of_mem quote (ih h)
  | case4 other rest _ ih =>
      rcases List.mem_append.1 h with h | h
      · rw [hone other h]
        exact List.mem_cons_self
      · exact List.mem_cons_of_mem other (ih h)

end Item

theorem joinLines_concat {ending : Token} (h : ending.cls = .ending) (depth : Nat)
    (items : List Item) :
    joinLines depth (items ++ [.single ending]) = joinLines depth items ++ [.single ending] := by
  induction items generalizing depth with
  | nil =>
      have hline : (Item.single ending).isLine = false := by
        rw [Item.isLine, h]
        rfl
      simp [joinLines, hline]
  | cons item rest ih =>
      rw [List.cons_append, joinLines, joinLines, ih, ih]
      split
      · rfl
      · rfl

namespace Draft

variable {draft : Draft} {token : Token} {rules : RuleTable}

/-- Whether some tokens lead to no grammar behind a quote. -/
def Stuck (quote : Token) (rest : List Token) : Prop :=
  (openingQuote? quote).isSome = true → ∀ rules rule opening table,
    ¬ Completes ⟨rules, .afterQuote rule opening quote⟩ rest table

theorem stuck_items {items : List Item} (h : ∀ item ∈ items, item.Proper) (quote : Token) :
    Stuck quote (items.flatMap Item.tokens) := by
  intro hquote before rule opening table hcompletes
  obtain ⟨payload, close, behind, hrest, hliteral⟩ := hcompletes.afterQuote hquote
  have hcomment : payload.cls = .comment := (isLiteral_iff.1 hliteral).2.1
  cases items with
  | nil => cases hrest
  | cons item items =>
      have hproper := h item List.mem_cons_self
      rw [List.flatMap_cons] at hrest
      cases item with
      | single first =>
          obtain ⟨rfl, -⟩ := List.cons.inj hrest
          rw [Item.Proper, Token.isSkippable, hcomment] at hproper
          cases hproper
      | literal first second third =>
          obtain ⟨rfl, -⟩ := List.cons.inj hrest
          rw [(quote_of_openingQuote? (isLiteral_iff.1 hproper).1).1] at hcomment
          cases hcomment

/-- What follows a token that is no literal's quote may be replaced by what completes
    a grammar whenever it does. -/
theorem completes_single {rest rest' : List Token} (hbetween : draft.place.BetweenItems)
    (hstuck : Stuck token rest) (hstuck' : Stuck token rest')
    (hrest : ∀ later : Draft, later.place.BetweenItems →
      later.place.depth = (Item.single token).depthBehind draft.place.depth →
      (later.Completes rest rules ↔ later.Completes rest' rules)) :
    draft.Completes (token :: rest) rules ↔ draft.Completes (token :: rest') rules := by
  have hone : ∀ later : Draft, Reads draft token later →
      (later.Completes rest rules ↔ later.Completes rest' rules) := by
    intro later hreads
    rcases hreads.between hbetween with ⟨hlater, hdepth⟩ | ⟨hquote, rule, opening, hplace⟩
    · exact hrest later hlater hdepth
    · obtain ⟨laterRules, place⟩ := later
      dsimp only at hplace
      subst hplace
      constructor
      · exact fun h => (hstuck hquote _ _ _ _ h).elim
      · exact fun h => (hstuck' hquote _ _ _ _ h).elim
  constructor
  · rintro ⟨later, hreads, h⟩
    exact ⟨later, hreads, (hone later hreads).1 h⟩
  · rintro ⟨later, hreads, h⟩
    exact ⟨later, hreads, (hone later hreads).2 h⟩

theorem completes_literal {quote payload close : Token} {rest rest' : List Token}
    (hbetween : draft.place.BetweenItems) (hliteral : isLiteral quote payload close = true)
    (hrest : ∀ later : Draft, later.place.BetweenItems →
      later.place.depth = draft.place.depth →
      (later.Completes rest rules ↔ later.Completes rest' rules)) :
    draft.Completes (quote :: payload :: close :: rest) rules ↔
      draft.Completes (quote :: payload :: close :: rest') rules := by
  have hquote := (isLiteral_iff.1 hliteral).1
  have hone : ∀ first second third : Draft, Reads draft quote first → Reads first payload second →
      Reads second close third → (third.Completes rest rules ↔ third.Completes rest' rules) := by
    intro first second third hfirst hsecond hthird
    obtain ⟨rule, opening, rfl, hplace⟩ := hfirst.quoted hbetween hquote
    obtain ⟨-, rfl⟩ := hsecond.payload_eq
    obtain ⟨-, rfl⟩ := hthird.endLiteral_eq
    exact hrest _ trivial (Place.depth_of_expects hplace).symm
  constructor
  · rintro ⟨first, hfirst, second, hsecond, third, hthird, h⟩
    exact ⟨first, hfirst, second, hsecond, third, hthird,
      (hone first second third hfirst hsecond hthird).1 h⟩
  · rintro ⟨first, hfirst, second, hsecond, third, hthird, h⟩
    exact ⟨first, hfirst, second, hsecond, third, hthird,
      (hone first second third hfirst hsecond hthird).2 h⟩

theorem completes_ofToken {rest : List Token} (hbetween : draft.place.BetweenItems)
    (hstuck : Stuck token rest)
    (hrest : ∀ later : Draft, later.place.BetweenItems →
      (later.Completes rest rules ↔
        later.Completes ((Item.ofTokens rest).flatMap Item.tokens) rules)) :
    draft.Completes (token :: rest) rules ↔
      draft.Completes ((Item.ofToken token ++ Item.ofTokens rest).flatMap Item.tokens) rules := by
  unfold Item.ofToken
  split
  · next hskip =>
    rw [completes_skip (Place.mayStepOver_iff.2 ⟨hbetween, .inl hskip⟩)]
    exact hrest draft hbetween
  · have hstuck' : Stuck token ((Item.ofTokens rest).flatMap Item.tokens) :=
      stuck_items (fun _ => Item.proper_of_mem_ofTokens) token
    exact completes_single hbetween hstuck hstuck' fun later hlater _ => hrest later hlater

theorem completes_ofTokens {tokens : List Token} (hbetween : draft.place.BetweenItems) :
    draft.Completes tokens rules ↔
      draft.Completes ((Item.ofTokens tokens).flatMap Item.tokens) rules := by
  fun_induction Item.ofTokens tokens generalizing draft with
  | case1 => exact Iff.rfl
  | case2 quote payload close rest hliteral ih =>
      exact completes_literal hbetween hliteral fun later hlater _ => ih hlater
  | case3 quote payload close rest hliteral ih =>
      refine completes_ofToken hbetween ?_ fun later hlater => ih hlater
      intro hquote before rule opening table hcompletes
      obtain ⟨payload', close', behind, hrest, h⟩ := hcompletes.afterQuote hquote
      cases hrest
      exact hliteral h
  | case4 token rest hshort ih =>
      refine completes_ofToken hbetween ?_ fun later hlater => ih hlater
      intro hquote before rule opening table hcompletes
      obtain ⟨payload, close, behind, hrest, -⟩ := hcompletes.afterQuote hquote
      exact hshort payload close behind hrest

theorem completes_joinLines {items : List Item} (hproper : ∀ item ∈ items, item.Proper)
    (hbetween : draft.place.BetweenItems) :
    draft.Completes (items.flatMap Item.tokens) rules ↔
      draft.Completes ((joinLines draft.place.depth items).flatMap Item.tokens) rules := by
  induction items generalizing draft with
  | nil => exact Iff.rfl
  | cons item rest ih =>
      have hrest : ∀ item ∈ rest, item.Proper := fun item h =>
        hproper item (List.mem_cons_of_mem _ h)
      have hjoined : ∀ depth, ∀ item ∈ joinLines depth rest, item.Proper :=
        fun depth item h => hrest item (Item.mem_of_mem_joinLines h)
      rw [joinLines]
      split
      · next hline =>
        rw [Bool.and_eq_true, decide_eq_true_eq] at hline
        cases item with
        | literal quote payload close => cases hline.1
        | single token =>
            have hskip : draft.place.mayStepOver token = true :=
              Place.mayStepOver_iff.2 ⟨hbetween, .inr ⟨eq_of_beq hline.1, .inr hline.2⟩⟩
            show draft.Completes (token :: rest.flatMap Item.tokens) rules ↔ _
            rw [completes_skip hskip]
            exact ih hrest hbetween
      · cases item with
        | literal quote payload close =>
            refine completes_literal hbetween (hproper _ List.mem_cons_self) ?_
            intro later hlater hdepth
            rw [Item.depthBehind, ← hdepth]
            exact ih hrest hlater
        | single token =>
            refine completes_single hbetween (stuck_items hrest token)
              (stuck_items (hjoined _) token) fun later hlater hdepth => ?_
            rw [← hdepth]
            exact ih hrest hlater

/-- Tokens complete a grammar if and only if those of their items that count do. -/
theorem completes_toItems {tokens : List Token} :
    Draft.blank.Completes tokens rules ↔
      Draft.blank.Completes ((joinLines 0 (Item.ofTokens tokens)).flatMap Item.tokens) rules := by
  have hbetween : Draft.blank.place.BetweenItems := trivial
  have hproper : ∀ item ∈ Item.ofTokens tokens, item.Proper :=
    fun _ => Item.proper_of_mem_ofTokens
  rw [completes_ofTokens hbetween, completes_joinLines hproper hbetween]
  rfl

end Draft

end TokenGrammar
