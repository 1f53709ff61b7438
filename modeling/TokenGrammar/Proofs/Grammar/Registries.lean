/-
  TokenGrammar.Proofs.Grammar.Registries

  The words of a grammar.  They can be registered while the source is read, each literal
  when it is closed, at whatever depth of brackets it stands (`Draft.readRegistering`).
  The rule that it belongs to is complete only at the end of its line; until then its
  elements and those of the alternations that are still open hold the literal.  So at each
  place the registered words are those that the draft says (`Draft.Reads.says_iff`), and at
  the end they are the literals of the rules (`Grammar.compileRegistering_eq`).

  Main statement: `Grammar.registries_are_the_literals`.
-/

import TokenGrammar.Proofs.Grammar.Escaping
import TokenGrammar.Proofs.Grammar.Joining
import TokenGrammar.Proofs.Lexer.WordOrder

namespace TokenGrammar

-- ============================================================================
-- Registering literals
-- ============================================================================

/-- Words of a language in the order in which they were registered: its symbols, and the
    others. -/
structure Registry where
  symbols : List String
  keywords : List String
  deriving DecidableEq, Repr

namespace Registry

/-- A registry without words. -/
def empty : Registry := ⟨[], []⟩

/-- The registry with one more word. -/
def register (registry : Registry) (text : String) : Registry :=
  if isSymbolic text then { registry with symbols := registry.symbols ++ [text] }
  else { registry with keywords := registry.keywords ++ [text] }

end Registry

namespace Draft

/-- The literal that a token closes. -/
def closes? (draft : Draft) (token : Token) : Option String :=
  match draft.place with
  | .afterPayload _ _ quote payload =>
    if token.isSymbol quote.text then some (String.ofList (unescape payload.text.toList)) else none
  | _ => none

/-- Read the next token of a source, and register the literal that it closes. -/
def readRegistering (tokens : List Token) (state : Draft × Registry) (token : Token) :
    Except GrammarError (Draft × Registry) :=
  (state.1.read tokens token).map fun later =>
    (later, (state.1.closes? token).elim state.2 state.2.register)

end Draft

/-- The grammar that a source describes, with the words that are registered while the source
    is read. -/
def Grammar.compileRegistering (source : String) : Except GrammarError Grammar :=
  let tokens := (sourceLexer.tokenize source).toList
  (tokens.foldlM (Draft.readRegistering tokens) (Draft.blank, Registry.empty)).map
    fun (draft, registry) =>
      ⟨draft.rules, sortLongestFirst registry.symbols, sortLongestFirst registry.keywords⟩

-- ============================================================================
-- The literals of a draft
-- ============================================================================

namespace Node

/-- Whether an element is a literal of a text, or holds one. -/
def Says (node : Node) (text : String) : Prop :=
  ∃ modifiers span, .terminal modifiers span (.literal text) ∈ node.visits

variable {modifiers : Modifiers} {span : Span} {text : String}

@[simp]
theorem says_terminal {pattern : Terminal} :
    (terminal modifiers span pattern).Says text ↔ pattern = .literal text := by
  simp only [Says, visits, List.mem_singleton, terminal.injEq]
  constructor
  · rintro ⟨_, _, -, -, hpattern⟩
    exact hpattern.symm
  · rintro rfl
    exact ⟨modifiers, span, rfl, rfl, rfl⟩

@[simp]
theorem says_ref {rule : String} : ¬ (ref modifiers span rule).Says text := by
  simp [Says, visits]

@[simp]
theorem says_alternation {branches : List (List Node)} {onceEach : Bool} :
    (alternation modifiers span branches onceEach).Says text ↔
      ∃ branch ∈ branches, ∃ node ∈ branch, node.Says text := by
  have hvisits (modifiers' : Modifiers) (span' : Span) :
      terminal modifiers' span' (.literal text) ∈
          (alternation modifiers span branches onceEach).visits ↔
        ∃ branch ∈ branches, ∃ node ∈ branch,
          terminal modifiers' span' (.literal text) ∈ node.visits := by
    rw [visits_eq_cons, List.mem_cons, mem_sequenceVisits, children]
    simp only [reduceCtorEq, false_or, List.mem_flatten]
    constructor
    · rintro ⟨node, ⟨branch, hbranch, hnode⟩, hmem⟩
      exact ⟨branch, hbranch, node, hnode, hmem⟩
    · rintro ⟨branch, hbranch, node, hnode, hmem⟩
      exact ⟨node, ⟨branch, hbranch, hnode⟩, hmem⟩
  constructor
  · rintro ⟨modifiers', span', hmem⟩
    obtain ⟨branch, hbranch, node, hnode, hmem⟩ := (hvisits _ _).1 hmem
    exact ⟨branch, hbranch, node, hnode, _, _, hmem⟩
  · rintro ⟨branch, hbranch, node, hnode, modifiers', span', hmem⟩
    exact ⟨modifiers', span', (hvisits _ _).2 ⟨branch, hbranch, node, hnode, hmem⟩⟩

/-- Neither a suffix nor another place changes what an element says. -/
theorem addSuffix_says {node node' : Node} {suffix : Suffix} {token : Token}
    (h : node.addSuffix suffix token = .ok node') : node'.Says text ↔ node.Says text := by
  unfold addSuffix at h
  split at h
  · cases h
  · cases h
  · obtain rfl := Except.ok.inj h
    cases node <;> cases suffix <;>
      simp [setSuffix, withModifiers, withSpan]

end Node

theorem RuleTable.hasLiteral_iff_says {rules : RuleTable} {text : String} :
    rules.HasLiteral text ↔ ∃ rule ∈ rules.rules, ∃ node ∈ rule.nodes, node.Says text := by
  simp only [HasLiteral, Node.standsIn_iff, Node.mem_sequenceVisits]
  constructor
  · rintro ⟨rule, hrule, modifiers, span, node, hnode, hmem⟩
    exact ⟨rule, hrule, node, hnode, modifiers, span, hmem⟩
  · rintro ⟨rule, hrule, node, hnode, modifiers, span, hmem⟩
    exact ⟨rule, hrule, modifiers, span, node, hnode, hmem⟩

/-- Whether a text is said by an element of an open alternation or before it. -/
def OpenAlternation.Says (alternation : OpenAlternation) (text : String) : Prop :=
  (∃ node ∈ alternation.before, node.Says text) ∨
    ∃ branch ∈ alternation.branches, ∃ node ∈ branch, node.Says text

/-- Whether a text is said by what has been read of a rule. -/
def OpenRule.Says (rule : OpenRule) (text : String) : Prop :=
  (∃ node ∈ rule.elements, node.Says text) ∨
    ∃ alternation ∈ rule.alternations, alternation.Says text

/-- Whether a text is said by the rule that reading stands in, if any. -/
def Place.Says (place : Place) (text : String) : Prop :=
  match place with
  | .betweenRules => False
  | .afterName _ => False
  | .inSequence rule => rule.Says text
  | .afterTilde rule _ => rule.Says text
  | .afterQuote rule _ _ => rule.Says text
  | .afterPayload rule _ _ _ => rule.Says text

/-- Whether a text is said by a complete rule or by the one that is not. -/
def Draft.Says (draft : Draft) (text : String) : Prop :=
  draft.rules.HasLiteral text ∨ draft.place.Says text

section Says

variable {rule : OpenRule} {text : String}

theorem OpenRule.says_add {node : Node} :
    (rule.add node).Says text ↔ rule.Says text ∨ node.Says text := by
  simp only [OpenRule.Says, OpenRule.add, List.mem_cons, exists_eq_or_imp]
  rw [or_assoc, or_comm (b := node.Says text)]

/-- The elements before an alternation are said behind its bracket as well. -/
theorem OpenRule.says_opened {opening : Opening} :
    (rule.opened opening).Says text ↔ rule.Says text := by
  simp [OpenRule.Says, OpenRule.opened, OpenAlternation.Says]

/-- An element may begin only in a rule that says all that the place says. -/
theorem Place.Expects.says {place : Place} {start : Nat} {opening : Opening}
    (h : place.Expects start rule opening) : place.Says text ↔ rule.Says text := by
  cases h with
  | here => rfl
  | behindTilde => rfl

theorem Place.Expects.closes? {place : Place} {start : Nat} {opening : Opening}
    (h : place.Expects start rule opening) (rules : RuleTable) (token : Token) :
    (Draft.mk rules place).closes? token = none := by
  cases h with
  | here => rfl
  | behindTilde => rfl

/-- A token that is stepped over closes nothing. -/
theorem Draft.closes?_of_mayStepOver {draft : Draft} {token : Token}
    (h : draft.place.mayStepOver token = true) : draft.closes? token = none := by
  obtain ⟨rules, place⟩ := draft
  cases place with
  | afterPayload => cases h
  | betweenRules => rfl
  | afterName => rfl
  | inSequence => rfl
  | afterTilde => rfl
  | afterQuote => rfl

/-- What is said after a token is what was said before it, and the literal that the token
    closes. -/
theorem Draft.Reads.says_iff {draft later : Draft} {token : Token}
    (h : Draft.Reads draft token later) :
    later.Says text ↔ draft.Says text ∨ draft.closes? token = some text := by
  cases h with
  | skip hskip => simp [Draft.closes?_of_mayStepOver hskip]
  | stop => simp [Draft.closes?]
  | name => simp [Draft.closes?, Draft.Says, Place.Says]
  | define => simp [Draft.closes?, Draft.Says, Place.Says, OpenRule.Says]
  | @endRule rules later rule token last before halternations _ helements hlater =>
      simp only [Draft.closes?, Draft.Says, Place.Says, OpenRule.Says, halternations,
        RuleTable.hasLiteral_iff_says, hlater, List.mem_append, List.mem_singleton]
      simp [or_and_right, exists_or, OpenRule.complete]
  | bar halternations =>
      simp only [Draft.closes?, Draft.Says, Place.Says, OpenRule.Says, OpenAlternation.Says,
        halternations, List.mem_cons, exists_eq_or_imp, List.not_mem_nil, List.mem_reverse]
      simp [or_left_comm, or_assoc]
  | close halternations =>
      simp only [Draft.closes?, Draft.Says, Place.Says, OpenRule.Says, OpenAlternation.Says,
        halternations, List.mem_cons, exists_eq_or_imp, List.mem_reverse, Node.says_alternation]
      simp [or_comm, or_left_comm, or_assoc]
  | suffix helements _ hnode =>
      simp only [Draft.closes?, Draft.Says, Place.Says, OpenRule.Says, helements, List.mem_cons,
        exists_eq_or_imp, Node.addSuffix_says hnode]
      simp
  | tilde => simp [Draft.closes?, Draft.Says, Place.Says]
  | quote hplace =>
      rw [hplace.closes?, Draft.Says, Draft.Says, hplace.says]
      simp [Place.Says]
  | bracket hplace =>
      rw [hplace.closes?, Draft.Says, Draft.Says, hplace.says]
      simp [Place.Says, OpenRule.says_opened]
  | category hplace =>
      rw [hplace.closes?, Draft.Says, Draft.Says, hplace.says]
      simp [Place.Says, OpenRule.says_add]
  | reference hplace =>
      rw [hplace.closes?, Draft.Says, Draft.Says, hplace.says]
      simp [Place.Says, OpenRule.says_add]
  | payload => simp [Draft.closes?, Draft.Says, Place.Says]
  | endLiteral hclose =>
      simp only [Draft.closes?, Draft.Says, Place.Says, OpenRule.says_add, hclose, if_true,
        Node.says_terminal, Terminal.literal.injEq, Option.some.injEq]
      tauto

end Says

-- ============================================================================
-- Registered words and the literals of the rules
-- ============================================================================

namespace Registry

variable {registry : Registry} {draft later : Draft} {tokens rest : List Token}

/-- Whether the registered words are those that a draft says, each where it belongs. -/
def IsOf (registry : Registry) (draft : Draft) : Prop :=
  ∀ text, (text ∈ registry.symbols ↔ draft.Says text ∧ isSymbolic text = true) ∧
    (text ∈ registry.keywords ↔ draft.Says text ∧ isSymbolic text = false)

theorem isOf_blank : Registry.empty.IsOf .blank := by
  have hnone (text : String) : ¬ Draft.blank.Says text := by
    rintro (⟨rule, hrule, -⟩ | hplace)
    · exact nomatch hrule
    · exact hplace
  exact fun text => ⟨⟨nofun, fun h => absurd h.1 (hnone text)⟩,
    ⟨nofun, fun h => absurd h.1 (hnone text)⟩⟩

theorem mem_symbols_register {word text : String} :
    text ∈ (registry.register word).symbols ↔
      text ∈ registry.symbols ∨ word = text ∧ isSymbolic text = true := by
  unfold register
  split
  · next hword =>
    rw [List.mem_append, List.mem_singleton, eq_comm (a := text)]
    exact or_congr_right ⟨fun h => ⟨h, h ▸ hword⟩, And.left⟩
  · next hword => exact ⟨.inl, fun h => h.resolve_right fun ⟨heq, h⟩ => hword (heq ▸ h)⟩

theorem mem_keywords_register {word text : String} :
    text ∈ (registry.register word).keywords ↔
      text ∈ registry.keywords ∨ word = text ∧ isSymbolic text = false := by
  unfold register
  split
  · next hword =>
    exact ⟨.inl, fun h => h.resolve_right fun ⟨heq, h⟩ => Bool.eq_false_iff.1 h (heq ▸ hword)⟩
  · next hword =>
    rw [List.mem_append, List.mem_singleton, eq_comm (a := text)]
    exact or_congr_right ⟨fun h => ⟨h, h ▸ Bool.eq_false_iff.2 hword⟩, And.left⟩

/-- Registering the literal that a token closes keeps up with the draft. -/
theorem IsOf.of_reads (h : registry.IsOf draft) {token : Token}
    (hreads : Draft.Reads draft token later) :
    ((draft.closes? token).elim registry registry.register).IsOf later := by
  intro text
  obtain ⟨hsymbols, hkeywords⟩ := h text
  rw [hreads.says_iff, or_and_right, or_and_right, ← hsymbols, ← hkeywords]
  cases draft.closes? token with
  | none => simp
  | some word =>
      rw [Option.elim_some, mem_symbols_register, mem_keywords_register, Option.some.injEq]
      exact ⟨Iff.rfl, Iff.rfl⟩

/-- Reading and registering all of some tokens leads where reading them leads, and the
    registered words keep up with it. -/
theorem IsOf.of_readAll (h : registry.IsOf draft) :
    (∃ error, rest.foldlM (Draft.readRegistering tokens) (draft, registry) = .error error ∧
      draft.readAll tokens rest = .error error) ∨
    ∃ later registered, rest.foldlM (Draft.readRegistering tokens) (draft, registry) =
      .ok (later, registered) ∧ draft.readAll tokens rest = .ok later ∧ registered.IsOf later := by
  induction rest generalizing draft registry with
  | nil => exact .inr ⟨draft, registry, rfl, rfl, h⟩
  | cons token rest ih =>
      rw [List.foldlM_cons, Draft.readAll, List.foldlM_cons, Draft.readRegistering]
      cases hread : draft.read tokens token with
      | error error => exact .inl ⟨error, rfl, rfl⟩
      | ok middle => exact ih (h.of_reads (Draft.read_eq_ok_iff.1 hread))

end Registry

namespace Grammar

/-- Literals that are registered while they are read make the words of the grammar. -/
theorem compileRegistering_eq (source : String) : compileRegistering source = compile source := by
  let stream := sourceLexer.tokenize source
  have hending : stream.ending.cls = .ending := rfl
  rw [compileRegistering, compile, RuleTable.ofTokens]
  rcases @Registry.IsOf.of_readAll _ _ stream.toList stream.toList Registry.isOf_blank with
    ⟨error, hregistering, hread⟩ | ⟨⟨rules, place⟩, registry, hregistering, hread, hwords⟩
  · rw [hregistering, hread]
    rfl
  · obtain rfl : place = .betweenRules := Draft.place_of_readAll_ending hending hread
    have hsays (text : String) : (Draft.mk rules .betweenRules).Says text ↔ text ∈ rules.literals := by
      rw [RuleTable.mem_literals]
      exact or_iff_left id
    have hsymbols : sortLongestFirst registry.symbols = symbolicWords rules.literals :=
      sortLongestFirst_eq_of_mem_iff fun text _ => by
        rw [(hwords text).1, hsays, List.mem_filter]
    have hkeywords : sortLongestFirst registry.keywords = keywordWords rules.literals :=
      sortLongestFirst_eq_of_mem_iff fun text _ => by
        rw [(hwords text).2, hsays, List.mem_filter, Bool.not_eq_true']
    rw [hregistering, hread]
    simp only [Except.map, ofRules, hsymbols, hkeywords]

theorem isSymbolic_iff {text : String} :
    isSymbolic text = true ↔ ∀ c ∈ text.toList, Unicode.isAlphanumeric c = false ∧
      Unicode.isWhiteSpace c = false ∧ Unicode.isControl c = false ∧ c ≠ '_' := by
  simp only [isSymbolic, isPunctuation, List.all_eq_true, Bool.and_eq_true, Bool.not_eq_true',
    bne_iff_ne, and_assoc]

/-- The words of a grammar are its literals: its symbols those in which every character is
    punctuation, its keywords the others.  None of them is empty, none is listed twice, words
    of more bytes come first, and words of as many stand in the order of their bytes.  A lexer
    for the language knows these words and no others.  The same words come of registering
    each literal when it is read. -/
theorem registries_are_the_literals {source : String} {grammar : Grammar}
    (h : compile source = .ok grammar) :
    (∀ text, text ∈ grammar.symbols ↔ grammar.rules.HasLiteral text ∧
      ∀ c ∈ text.toList, Unicode.isAlphanumeric c = false ∧ Unicode.isWhiteSpace c = false ∧
        Unicode.isControl c = false ∧ c ≠ '_') ∧
    (∀ text, text ∈ grammar.keywords ↔ grammar.rules.HasLiteral text ∧
      ¬ ∀ c ∈ text.toList, Unicode.isAlphanumeric c = false ∧ Unicode.isWhiteSpace c = false ∧
        Unicode.isControl c = false ∧ c ≠ '_') ∧
    (∀ words ∈ [grammar.symbols, grammar.keywords], words.Nodup ∧ "" ∉ words ∧
      words.Pairwise fun word next => next.utf8ByteSize < word.utf8ByteSize ∨
        next.utf8ByteSize = word.utf8ByteSize ∧ utf8Bytes word < utf8Bytes next) ∧
    grammar.lexer = ⟨grammar.symbols, grammar.keywords, defaultQuotes, none⟩ ∧
    compileRegistering source = .ok grammar := by
  have hnonempty {text : String} (htext : grammar.rules.HasLiteral text) : text.isEmpty = false := by
    rw [← Bool.not_eq_true, String.isEmpty_iff]
    exact ne_empty_of_hasLiteral h htext
  have hregistering := (compileRegistering_eq source).trans h
  obtain ⟨rules, -, rfl⟩ := compile_eq_ok.1 h
  have hsorted {p : String → Bool} {text : String} :
      text ∈ sortLongestFirst (rules.literals.filter p) ↔
        rules.HasLiteral text ∧ p text = true := by
    rw [mem_sortLongestFirst, List.mem_filter, RuleTable.mem_literals]
    exact and_iff_left_of_imp fun htext => hnonempty htext.1
  refine ⟨fun text => ?_, fun text => ?_, fun words hwords => ?_, ?_, hregistering⟩
  · rw [← isSymbolic_iff]
    exact hsorted
  · rw [← isSymbolic_iff, Bool.not_eq_true, ← Bool.not_eq_true']
    exact hsorted
  · simp only [List.mem_cons, List.not_mem_nil, or_false] at hwords
    rcases hwords with rfl | rfl
    · exact sortLongestFirst_strict _
    · exact sortLongestFirst_strict _
  · show Lexer.mk (sortLongestFirst ([] ++ symbolicWords rules.literals))
      (sortLongestFirst ([] ++ keywordWords rules.literals)) defaultQuotes none = _
    rw [List.nil_append, List.nil_append, symbolicWords, keywordWords,
      sortLongestFirst_sortLongestFirst, sortLongestFirst_sortLongestFirst]
    rfl

/-- The rules of a grammar with a literal in brackets within brackets and again behind
    another name. -/
def nestedLiterals : RuleTable :=
  ⟨[⟨"ROOT", [.alternation ⟨false, false, true, false⟩ ⟨8, 38⟩
      [[.terminal .plain ⟨10, 14⟩ (.literal "if"), .alternation .plain ⟨15, 29⟩
          [[.terminal .plain ⟨17, 20⟩ (.literal "=")], [.terminal .plain ⟨23, 27⟩ (.literal "==")]]
          false],
        [.terminal .plain ⟨32, 35⟩ (.literal "(")]] false], ⟨0, 38⟩⟩,
    ⟨"x", [.terminal .plain ⟨44, 47⟩ (.literal "="), .terminal .plain ⟨48, 51⟩ (.literal "_"),
      .terminal .plain ⟨52, 56⟩ (.literal "é")], ⟨39, 56⟩⟩], by decide⟩

/-- Words of two bytes stand in front of those of one, also where they are one character. -/
theorem nested_literals_are_registered :
    ∃ grammar, compile "ROOT := [ 'if' [ '=' | '==' ] | '(' ]*\nx := '=' '_' 'é'" = .ok grammar ∧
      grammar.symbols = ["==", "(", "="] ∧ grammar.keywords = ["if", "é", "_"] ∧
      grammar.rules.HasLiteral "==" ∧
      grammar.lexer = ⟨["==", "(", "="], ["if", "é", "_"], defaultQuotes, none⟩ := by
  have hcompile : compile "ROOT := [ 'if' [ '=' | '==' ] | '(' ]*\nx := '=' '_' 'é'" =
      .ok (ofRules nestedLiterals) := by decide +kernel
  have hliterals : nestedLiterals.literals = ["(", "==", "=", "if", "é", "_", "="] := rfl
  have hsymbols : (ofRules nestedLiterals).symbols = ["==", "(", "="] := by
    rw [ofRules, hliterals]
    decide
  have hkeywords : (ofRules nestedLiterals).keywords = ["if", "é", "_"] := by
    rw [ofRules, hliterals]
    decide
  obtain ⟨hiff, -, -, hlexer, -⟩ := registries_are_the_literals hcompile
  rw [hsymbols, hkeywords] at hlexer
  rw [hsymbols] at hiff
  exact ⟨_, hcompile, hsymbols, hkeywords, ((hiff "==").1 (by decide)).1, hlexer⟩

end Grammar

end TokenGrammar
