/-
  TokenGrammar.Proofs.Grammar.Notation

  The notation of grammars as a grammar, with no reader in sight.

    file    ::= (LINE | rule)* EOF
    rule    ::= name ":=" element+, before LINE or EOF
    element ::= "~"? primary suffix*
    primary ::= literal | category | name | "[" element+ ("|" element+)* "]"
    suffix  ::= "?" | "*" | "!" | "$"

  It goes by the items of a source: literals, which are made of three tokens, and
  all other tokens but blanks and comments.  Line ends within brackets do not
  count.  A derivation says which nodes its items stand for.
-/

import TokenGrammar.Grammar.Basic

namespace TokenGrammar

-- ============================================================================
-- Items
-- ============================================================================

/-- What the notation goes by: a token, or a literal with its quotes. -/
inductive Item where
  | single (token : Token)
  | literal (quote payload close : Token)
  deriving DecidableEq, Repr

/-- Whether three tokens in a row are a literal that is closed and not empty. -/
def isLiteral (quote payload close : Token) : Bool :=
  (openingQuote? quote).isSome && payload.cls == .comment && close.isSymbol quote.text

theorem isLiteral_iff {quote payload close : Token} :
    isLiteral quote payload close = true ↔ (openingQuote? quote).isSome = true ∧
      payload.cls = .comment ∧ close.isSymbol quote.text = true := by
  rw [isLiteral, Bool.and_eq_true, Bool.and_eq_true, beq_iff_eq, and_assoc]

namespace Item

/-- The tokens that an item is made of. -/
def tokens : Item → List Token
  | .single token => [token]
  | .literal quote payload close => [quote, payload, close]

/-- Where an item stands. -/
def span : Item → Span
  | .single token => token.span
  | .literal quote _ close => quote.span.through close.span

/-- Whether an item is a line end. -/
def isLine : Item → Bool
  | .single token => token.cls == .line
  | .literal .. => false

/-- How many brackets are open behind an item, if `depth` are before it. -/
def depthBehind (depth : Nat) : Item → Nat
  | .single token =>
    if token.isSymbol "[" then depth + 1
    else if token.isSymbol "]" then depth - 1
    else depth
  | .literal .. => depth

/-- The item that a single token is.  Blanks and comments are none. -/
def ofToken (token : Token) : List Item :=
  if token.isSkippable false then [] else [.single token]

end Item

/-- The items that some tokens make up. -/
def Item.ofTokens : List Token → List Item
  | [] => []
  | quote :: payload :: close :: rest =>
    if isLiteral quote payload close then .literal quote payload close :: ofTokens rest
    else ofToken quote ++ ofTokens (payload :: close :: rest)
  | token :: rest => ofToken token ++ ofTokens rest

/-- The items that count where `depth` brackets are open: all but the line ends
    within brackets. -/
def joinLines : Nat → List Item → List Item
  | _, [] => []
  | depth, item :: rest =>
    if item.isLine && decide (0 < depth) then joinLines depth rest
    else item :: joinLines (item.depthBehind depth) rest

/-- From the first of some items to the last one. -/
def spanOf (items : List Item) : Span where
  start := (items.head?.map (·.span.start)).getD 0
  stop := (items.getLast?.map (·.span.stop)).getD 0

-- ============================================================================
-- Derivations
-- ============================================================================

/-- What an element is made of besides its modifiers. -/
inductive Primary where
  | terminal (pattern : Terminal)
  | reference (name : String)
  | alternation (branches : List (List Node))

namespace Primary

/-- Whether a `$` may stand behind the element. -/
def isAlternation : Primary → Bool
  | .alternation _ => true
  | _ => false

/-- The element. -/
def node (primary : Primary) (adjacent : Bool) (suffixes : List Suffix) (span : Span) : Node :=
  let modifiers : Modifiers :=
    ⟨adjacent, suffixes.contains .optional, suffixes.contains .repeated, suffixes.contains .fatal⟩
  match primary with
  | .terminal pattern => .terminal modifiers span pattern
  | .reference name => .ref modifiers span name
  | .alternation branches => .alternation modifiers span branches (suffixes.contains .onceEach)

end Primary

/-- The parts of a rule that items can stand for. -/
inductive Phrase where
  | primary (made : Primary)
  | element (node : Node)
  | sequence (nodes : List Node)
  | branches (branches : List (List Node))

/-- Which items stand for which part of a rule. -/
inductive Derives : Phrase → List Item → Prop where
  | literal {quote payload close : Token} (h : isLiteral quote payload close = true) :
      Derives (.primary (.terminal (.literal (String.ofList (unescape payload.text.toList)))))
        [.literal quote payload close]
  | category {token : Token} {category : Category} (hcls : token.cls = .keyword)
      (htag : Category.ofTag? token.text = some category) :
      Derives (.primary (.terminal (.ofCategory category))) [.single token]
  | reference {token : Token} (hcls : token.cls = .identifier) :
      Derives (.primary (.reference token.text)) [.single token]
  | alternation {opening closing : Token} {branches : List (List Node)} {inner : List Item}
      (hopening : opening.isSymbol "[" = true) (hclosing : closing.isSymbol "]" = true)
      (hinner : Derives (.branches branches) inner) :
      Derives (.primary (.alternation branches)) (.single opening :: (inner ++ [.single closing]))
  | element {primary : Primary} {items whole : List Item} {tilde : Option Token}
      {signs : List (Suffix × Token)} (hprimary : Derives (.primary primary) items)
      (htilde : ∀ token ∈ tilde, token.isSymbol "~" = true)
      (hsigns : ∀ sign ∈ signs, sign.2.isSymbol (String.singleton sign.1.sign) = true)
      (honce : (signs.map Prod.fst).Nodup)
      (hbracket : .onceEach ∈ signs.map Prod.fst → primary.isAlternation = true)
      (hwhole : whole = tilde.toList.map .single ++ items ++ signs.map (.single ·.2)) :
      Derives (.element (primary.node tilde.isSome (signs.map Prod.fst) (spanOf whole))) whole
  | one {node : Node} {items : List Item} (hnode : Derives (.element node) items) :
      Derives (.sequence [node]) items
  | more {nodes : List Node} {node : Node} {before items : List Item}
      (hnodes : Derives (.sequence nodes) before) (hnode : Derives (.element node) items) :
      Derives (.sequence (nodes ++ [node])) (before ++ items)
  | branch {nodes : List Node} {items : List Item} (hnodes : Derives (.sequence nodes) items) :
      Derives (.branches [nodes]) items
  | another {branches : List (List Node)} {nodes : List Node} {before items : List Item}
      {bar : Token} (hbranches : Derives (.branches branches) before)
      (hbar : bar.isSymbol "|" = true) (hnodes : Derives (.sequence nodes) items) :
      Derives (.branches (branches ++ [nodes])) (before ++ .single bar :: items)

/-- Which items stand for a rule. -/
inductive IsRule : List Item → Rule → Prop where
  | intro {name define : Token} {nodes : List Node} {body whole : List Item}
      (hname : name.cls = .identifier) (hdigit : name.text.toList.head?.any Char.isDigit = false)
      (hdefine : define.isSymbol ":=" = true) (hbody : Derives (.sequence nodes) body)
      (hwhole : whole = .single name :: .single define :: body) :
      IsRule whole ⟨name.text, nodes, spanOf whole⟩

/-- Which items stand for some rules, one to a line. -/
inductive IsFile : List Item → List Rule → Prop where
  | done {token : Token} (h : token.cls = .ending) : IsFile [.single token] []
  | line {token : Token} {rest : List Item} {rules : List Rule} (h : token.cls = .line)
      (hrest : IsFile rest rules) : IsFile (.single token :: rest) rules
  | rule {items rest : List Item} {rule : Rule} {rules : List Rule} {next : Token}
      (hrule : IsRule items rule) (hnext : next.cls = .line ∨ next.cls = .ending)
      (hrest : IsFile (.single next :: rest) rules) :
      IsFile (items ++ .single next :: rest) (rule :: rules)

/-- The items of a grammar's source that count. -/
def sourceItems (source : String) : List Item :=
  joinLines 0 (Item.ofTokens (Grammar.sourceLexer.tokenize source).toList)

-- ============================================================================
-- Spans
-- ============================================================================

theorem spanOf_append {items more : List Item} (h : items ≠ []) (hmore : more ≠ []) :
    spanOf (items ++ more) = ⟨(spanOf items).start, (spanOf more).stop⟩ := by
  obtain ⟨first, rest, rfl⟩ := List.exists_cons_of_ne_nil h
  simp only [spanOf, List.getLast?_append, List.getLast?_eq_some_getLast hmore, Option.some_or]
  rfl

theorem stop_spanOf_concat (items : List Item) (item : Item) :
    (spanOf (items ++ [item])).stop = item.span.stop := by
  rw [spanOf, List.getLast?_concat]
  rfl

/-- Every phrase stands for some items. -/
theorem Derives.items_ne_nil {phrase : Phrase} {items : List Item} (h : Derives phrase items) :
    items ≠ [] := by
  induction h with
  | literal => exact List.cons_ne_nil _ _
  | category => exact List.cons_ne_nil _ _
  | reference => exact List.cons_ne_nil _ _
  | alternation => exact List.cons_ne_nil _ _
  | element _ _ _ _ _ hwhole ih =>
      rw [hwhole]
      simp [ih]
  | one _ ih => exact ih
  | more _ _ ih => simp [ih]
  | branch _ ih => exact ih
  | another _ _ _ ih => simp

/-- What is made of some items is an element with neither `~` nor suffixes. -/
theorem Derives.plainElement {primary : Primary} {items : List Item}
    (h : Derives (.primary primary) items) :
    Derives (.element (primary.node false [] (spanOf items))) items :=
  @Derives.element primary items items none [] h nofun nofun List.nodup_nil nofun (by simp)

-- ============================================================================
-- Suffixes
-- ============================================================================

namespace Primary

/-- An element has the suffixes that it was made with. -/
theorem hasSuffix_node (primary : Primary) (adjacent : Bool) (suffixes : List Suffix)
    (span : Span) (suffix : Suffix)
    (h : suffix = .onceEach → primary.isAlternation = true) :
    (primary.node adjacent suffixes span).hasSuffix suffix = .ok (suffixes.contains suffix) := by
  cases suffix with
  | onceEach =>
      cases primary with
      | alternation => rfl
      | terminal => cases h rfl
      | reference => cases h rfl
  | optional => cases primary <;> rfl
  | repeated => cases primary <;> rfl
  | fatal => cases primary <;> rfl

theorem hasSuffix_onceEach {primary : Primary} {adjacent : Bool} {suffixes : List Suffix}
    {span : Span} {has : Bool}
    (h : (primary.node adjacent suffixes span).hasSuffix .onceEach = .ok has) :
    primary.isAlternation = true := by
  cases primary with
  | alternation => rfl
  | terminal => cases h
  | reference => cases h

/-- Setting a suffix makes the element with one more suffix. -/
theorem setSuffix_node (primary : Primary) (adjacent : Bool) (suffixes : List Suffix)
    (span span' : Span) (suffix : Suffix)
    (h : suffix = .onceEach → primary.isAlternation = true) :
    ((primary.node adjacent suffixes span).setSuffix suffix).withSpan span' =
      primary.node adjacent (suffixes ++ [suffix]) span' := by
  have hcontains : ∀ other : Suffix, (suffixes ++ [suffix]).contains other =
      (suffixes.contains other || other == suffix) := by
    intro other
    rw [List.contains_append, List.contains_cons, List.contains_nil, Bool.or_false]
  unfold node
  simp only [hcontains]
  cases suffix with
  | onceEach =>
      cases primary with
      | alternation => simp [Node.setSuffix, Node.withSpan]
      | terminal => cases h rfl
      | reference => cases h rfl
  | optional =>
      cases primary <;> simp [Node.setSuffix, Node.withSpan, Node.withModifiers, Node.modifiers]
  | repeated =>
      cases primary <;> simp [Node.setSuffix, Node.withSpan, Node.withModifiers, Node.modifiers]
  | fatal =>
      cases primary <;> simp [Node.setSuffix, Node.withSpan, Node.withModifiers, Node.modifiers]

theorem span_node (primary : Primary) (adjacent : Bool) (suffixes : List Suffix) (span : Span) :
    (primary.node adjacent suffixes span).span = span := by
  cases primary <;> rfl

/-- A suffix can be added if the element may have it and has not. -/
theorem addSuffix_node_eq_ok_iff {primary : Primary} {adjacent : Bool} {suffixes : List Suffix}
    {span : Span} {suffix : Suffix} {token : Token} {node' : Node} :
    (primary.node adjacent suffixes span).addSuffix suffix token = .ok node' ↔
      (suffix = .onceEach → primary.isAlternation = true) ∧ suffix ∉ suffixes ∧
        node' = primary.node adjacent (suffixes ++ [suffix]) (span.through token.span) := by
  unfold Node.addSuffix
  constructor
  · intro h
    split at h
    · cases h
    · cases h
    · next hnot =>
      have hallowed : suffix = .onceEach → primary.isAlternation = true := by
        rintro rfl
        exact hasSuffix_onceEach hnot
      rw [hasSuffix_node _ _ _ _ _ hallowed] at hnot
      have hfresh : suffix ∉ suffixes := by
        intro hmem
        rw [List.contains_iff_mem.2 hmem] at hnot
        cases hnot
      rw [setSuffix_node _ _ _ _ _ _ hallowed, span_node] at h
      exact ⟨hallowed, hfresh, (Except.ok.inj h).symm⟩
  · rintro ⟨hallowed, hfresh, rfl⟩
    have hnot : suffixes.contains suffix = false := by
      rw [List.contains_eq_mem, decide_eq_false hfresh]
    rw [hasSuffix_node _ _ _ _ _ hallowed, hnot]
    dsimp only
    rw [setSuffix_node _ _ _ _ _ _ hallowed, span_node]

end Primary

end TokenGrammar
