/-
  TokenGrammar.Proofs.Grammar.Shifting

  Reading a source behind other rules.  Tokens that stand further on in a text are read as
  they are at its beginning, and lead to the same rules, further on.  All that earlier rules
  can do is to take the name of a later one, and nothing but the end of a rule looks at them
  (`Draft.Reads.shifted`, `Draft.Reads.clash`).

  Main statements: `Draft.Runs.shifted`, `Draft.Runs.clash`.
-/

import TokenGrammar.Proofs.Grammar.Inserts
import TokenGrammar.Proofs.Grammar.Items
import TokenGrammar.Proofs.Grammar.Pieces

namespace TokenGrammar

-- ============================================================================
-- Places further on
-- ============================================================================

/-- The piece of text that stands as many bytes further on. -/
def Span.shifted (bytes : Nat) (span : Span) : Span := ⟨span.start + bytes, span.stop + bytes⟩

/-- The token that stands as many bytes and lines further on. -/
def Token.shifted (bytes lines : Nat) (token : Token) : Token :=
  { token with span := token.span.shifted bytes, line := token.line + lines }

namespace Node

mutual

/-- The element that stands, with the elements inside it, as many bytes further on. -/
def shifted (bytes : Nat) : Node → Node
  | .terminal modifiers span pattern => .terminal modifiers (span.shifted bytes) pattern
  | .ref modifiers span rule => .ref modifiers (span.shifted bytes) rule
  | .alternation modifiers span branches onceEach =>
    .alternation modifiers (span.shifted bytes) (shiftedBranches bytes branches) onceEach

/-- The elements of a sequence, likewise. -/
def shiftedElements (bytes : Nat) : List Node → List Node
  | [] => []
  | node :: rest => node.shifted bytes :: shiftedElements bytes rest

/-- The branches of an alternation, likewise. -/
def shiftedBranches (bytes : Nat) : List (List Node) → List (List Node)
  | [] => []
  | branch :: rest => shiftedElements bytes branch :: shiftedBranches bytes rest

end

theorem shiftedElements_eq_map (bytes : Nat) (nodes : List Node) :
    shiftedElements bytes nodes = nodes.map (shifted bytes) := by
  induction nodes with
  | nil => rfl
  | cons node rest ih => rw [shiftedElements, ih, List.map_cons]

theorem shifted_alternation (bytes : Nat) (modifiers : Modifiers) (span : Span)
    (branches : List (List Node)) (onceEach : Bool) :
    (alternation modifiers span branches onceEach).shifted bytes =
      alternation modifiers (span.shifted bytes) (branches.map (·.map (shifted bytes)))
        onceEach := by
  have hbranches : shiftedBranches bytes branches = branches.map (·.map (shifted bytes)) := by
    induction branches with
    | nil => rfl
    | cons branch rest ih => rw [shiftedBranches, ih, shiftedElements_eq_map, List.map_cons]
  rw [shifted, hbranches]

@[simp] theorem span_shifted (bytes : Nat) (node : Node) :
    (node.shifted bytes).span = node.span.shifted bytes := by
  cases node <;> rfl

/-- Without what is known about their places elements are the same further on. -/
theorem forgetSpans_shifted (bytes : Nat) (node : Node) :
    (node.shifted bytes).forgetSpans = node.forgetSpans := by
  induction node using Node.induction with
  | terminal => rfl
  | ref => rfl
  | alternation modifiers span branches onceEach ih =>
      rw [shifted_alternation, forgetSpans, forgetSpans, forgetSpansOfBranches_eq_map,
        forgetSpansOfBranches_eq_map, List.map_map]
      congr 1
      refine List.map_congr_left fun branch hbranch => ?_
      rw [Function.comp_apply, List.map_map]
      exact List.map_congr_left fun node hnode => ih branch hbranch node hnode

theorem hasSuffix_shifted (bytes : Nat) (node : Node) (suffix : Suffix) :
    (node.shifted bytes).hasSuffix suffix = node.hasSuffix suffix := by
  cases node <;> cases suffix <;> rfl

theorem setSuffix_shifted (bytes : Nat) (node : Node) (suffix : Suffix) :
    (node.shifted bytes).setSuffix suffix = (node.setSuffix suffix).shifted bytes := by
  cases node <;> cases suffix <;> rfl

theorem withSpan_shifted (bytes : Nat) (node : Node) (span : Span) :
    (node.shifted bytes).withSpan (span.shifted bytes) = (node.withSpan span).shifted bytes := by
  cases node <;> rfl

/-- A suffix is added to an element further on as to the element itself. -/
theorem addSuffix_shifted (bytes lines : Nat) {node node' : Node} {suffix : Suffix} {token : Token}
    (h : node.addSuffix suffix token = .ok node') :
    (node.shifted bytes).addSuffix suffix (token.shifted bytes lines) =
      .ok (node'.shifted bytes) := by
  unfold addSuffix at h ⊢
  rw [hasSuffix_shifted]
  split at h
  · cases h
  · cases h
  · cases h
    rw [setSuffix_shifted, ← withSpan_shifted, span_shifted]
    rfl

end Node

/-- The rule that stands as many bytes further on. -/
def Rule.shifted (bytes : Nat) (rule : Rule) : Rule :=
  ⟨rule.name, rule.nodes.map (Node.shifted bytes), rule.span.shifted bytes⟩

/-- How an element begins as many bytes further on. -/
def Opening.shifted (bytes : Nat) (opening : Opening) : Opening :=
  { opening with start := opening.start + bytes }

/-- The alternation as many bytes further on. -/
def OpenAlternation.shifted (bytes : Nat) (alternation : OpenAlternation) : OpenAlternation where
  opening := alternation.opening.shifted bytes
  branches := alternation.branches.map (·.map (Node.shifted bytes))
  before := alternation.before.map (Node.shifted bytes)

/-- The rule as many bytes and lines further on. -/
def OpenRule.shifted (bytes lines : Nat) (rule : OpenRule) : OpenRule where
  name := rule.name.shifted bytes lines
  define := rule.define.shifted bytes lines
  alternations := rule.alternations.map (OpenAlternation.shifted bytes)
  elements := rule.elements.map (Node.shifted bytes)

theorem OpenRule.complete_shifted (bytes lines : Nat) (rule : OpenRule) (last : Node) :
    (rule.shifted bytes lines).complete (last.shifted bytes) =
      (rule.complete last).shifted bytes := by
  rw [complete, Node.span_shifted, shifted, ← List.map_reverse]
  rfl

/-- The place as many bytes and lines further on. -/
def Place.shifted (bytes lines : Nat) : Place → Place
  | .betweenRules => .betweenRules
  | .afterName name => .afterName (name.shifted bytes lines)
  | .inSequence rule => .inSequence (rule.shifted bytes lines)
  | .afterTilde rule opening => .afterTilde (rule.shifted bytes lines) (opening.shifted bytes)
  | .afterQuote rule opening quote =>
    .afterQuote (rule.shifted bytes lines) (opening.shifted bytes) (quote.shifted bytes lines)
  | .afterPayload rule opening quote payload =>
    .afterPayload (rule.shifted bytes lines) (opening.shifted bytes) (quote.shifted bytes lines)
      (payload.shifted bytes lines)

theorem Rule.forgetSpans_shifted (bytes : Nat) (rule : Rule) :
    (rule.shifted bytes).forgetSpans = rule.forgetSpans := by
  rw [forgetSpans, forgetSpans, shifted]
  congr 1
  rw [List.map_map]
  exact List.map_congr_left fun node _ => node.forgetSpans_shifted bytes

theorem Place.mayStepOver_shifted (bytes lines : Nat) (place : Place) (token : Token) :
    (place.shifted bytes lines).mayStepOver (token.shifted bytes lines) =
      place.mayStepOver token := by
  have hinside : ∀ rule : OpenRule,
      (rule.shifted bytes lines).inAlternation = rule.inAlternation := by
    intro rule
    rw [OpenRule.inAlternation, OpenRule.inAlternation, OpenRule.shifted, List.isEmpty_map]
  cases place with
  | inSequence rule => exact congrArg (Token.isSkippable · token) (hinside rule)
  | afterTilde rule opening => exact congrArg (Token.isSkippable · token) (hinside rule)
  | betweenRules => rfl
  | afterName => rfl
  | afterQuote => rfl
  | afterPayload => rfl

theorem Place.Expects.shifted (bytes lines : Nat) {place : Place} {start : Nat} {rule : OpenRule}
    {opening : Opening} (h : place.Expects start rule opening) :
    (place.shifted bytes lines).Expects (start + bytes) (rule.shifted bytes lines)
      (opening.shifted bytes) := by
  cases h with
  | here => exact .here _ _
  | behindTilde => exact .behindTilde _ _ _

-- ============================================================================
-- Reading behind earlier rules
-- ============================================================================

/-- A draft of which something has been read behind some rules, and the draft that the same
    leads to without them. -/
structure Draft.Follows (earlier : RuleTable) (bytes lines : Nat) (combined draft : Draft) :
    Prop where
  rules_eq : combined.rules.rules = earlier.rules ++ draft.rules.rules.map (Rule.shifted bytes)
  place_eq : combined.place = draft.place.shifted bytes lines

/-- Rules can stand behind earlier ones if they have other names. -/
theorem RuleTable.exists_appended (bytes : Nat) {earlier later : RuleTable}
    (h : ∀ rule ∈ later.rules, rule.name ∉ earlier.names) :
    ∃ table : RuleTable, table.rules = earlier.rules ++ later.rules.map (Rule.shifted bytes) := by
  have hnames : (later.rules.map (Rule.shifted bytes)).map Rule.name =
      later.rules.map Rule.name := by
    rw [List.map_map]
    rfl
  refine ⟨⟨_, ?_⟩, rfl⟩
  rw [List.map_append, hnames]
  refine List.nodup_append.2 ⟨earlier.nodup_names, later.nodup_names, ?_⟩
  rintro name hname _ hother rfl
  obtain ⟨rule, hrule, rfl⟩ := List.mem_map.1 hother
  exact h rule hrule hname

namespace Draft

variable {earlier : RuleTable} {bytes lines : Nat} {draft later combined : Draft} {token : Token}

/-- Behind earlier rules reading begins where they are complete. -/
theorem follows_blank (earlier : RuleTable) (bytes lines : Nat) :
    Follows earlier bytes lines ⟨earlier, .betweenRules⟩ blank :=
  ⟨(List.append_nil _).symm, rfl⟩

/-- No rule that has been read behind earlier ones has the name of one of them. -/
theorem Follows.notMem_names (h : Follows earlier bytes lines combined draft) {rule : Rule}
    (hrule : rule ∈ draft.rules.rules) : rule.name ∉ earlier.names := by
  intro hname
  have hnodup := combined.rules.nodup_names
  rw [h.rules_eq, List.map_append, List.nodup_append] at hnodup
  have hmem : rule.name ∈ (draft.rules.rules.map (Rule.shifted bytes)).map Rule.name :=
    List.mem_map.2 ⟨rule.shifted bytes, List.mem_map_of_mem hrule, rfl⟩
  exact hnodup.2.2 rule.name hname rule.name hmem rfl

/-- Reading adds rules at the end. -/
theorem Reads.rules_prefix (h : Reads draft token later) :
    draft.rules.rules <+: later.rules.rules := by
  cases h with
  | endRule _ _ _ hlater => exact ⟨_, hlater.symm⟩
  | _ => exact List.prefix_rfl

theorem Runs.rules_prefix {rest : List Token} (h : draft.Runs rest later) :
    draft.rules.rules <+: later.rules.rules := by
  induction rest generalizing draft with
  | nil => exact h ▸ List.prefix_rfl
  | cons token rest ih =>
      obtain ⟨middle, hreads, hrest⟩ := h
      exact hreads.rules_prefix.trans (ih hrest)

/-- A token is read further on, behind earlier rules, as it is without them, unless it
    completes a rule whose name one of them has. -/
theorem Reads.shifted (h : Reads draft token later)
    (hfollows : Follows earlier bytes lines combined draft)
    (hfree : ∀ rule ∈ later.rules.rules, rule.name ∉ earlier.names) :
    ∃ after, Reads combined (token.shifted bytes lines) after ∧
      Follows earlier bytes lines after later := by
  obtain ⟨combinedRules, combinedPlace⟩ := combined
  obtain ⟨hrules, rfl⟩ := hfollows
  cases h with
  | skip h => exact ⟨_, .skip (by rw [Place.mayStepOver_shifted]; exact h), hrules, rfl⟩
  | stop h => exact ⟨_, .stop h, hrules, rfl⟩
  | name h => exact ⟨_, .name h, hrules, rfl⟩
  | define h => exact ⟨_, .define h, hrules, rfl⟩
  | @endRule rules later rule _ last before halternations hcls helements hlater =>
      obtain ⟨table, htable⟩ := RuleTable.exists_appended bytes hfree
      refine ⟨⟨table, .betweenRules⟩, ?_, htable, rfl⟩
      refine .endRule ?_ hcls (List.map_cons ▸ congrArg (List.map _) helements) ?_
      · rw [OpenRule.shifted, halternations]
        rfl
      · rw [htable, hlater, List.map_append, ← List.append_assoc, ← hrules]
        exact congrArg (_ ++ [·]) (rule.complete_shifted bytes lines last).symm
  | @bar rules rule alternation outer _ halternations helements h =>
      refine ⟨_, .bar (congrArg (List.map _) halternations) (mt List.map_eq_nil_iff.1 helements) h,
        hrules, ?_⟩
      rw [OpenRule.shifted, ← List.map_reverse]
      rfl
  | @close rules rule alternation outer _ halternations helements h =>
      refine ⟨_, .close (congrArg (List.map _) halternations) (mt List.map_eq_nil_iff.1 helements)
        h, hrules, ?_⟩
      have hbranches : ((rule.shifted bytes lines).elements.reverse ::
          (alternation.shifted bytes).branches).reverse =
            (rule.elements.reverse :: alternation.branches).reverse.map
              (·.map (Node.shifted bytes)) := by
        rw [List.map_reverse, List.map_cons, List.map_reverse]
        rfl
      rw [hbranches]
      simp only [Place.shifted, OpenRule.shifted, List.map_cons, Node.shifted_alternation]
      rfl
  | @suffix rules rule node node' before _ suffix helements h hnode =>
      exact ⟨_, .suffix (congrArg (List.map _) helements) h
        (Node.addSuffix_shifted bytes lines hnode), hrules, rfl⟩
  | tilde h => exact ⟨_, .tilde h, hrules, rfl⟩
  | quote hplace h => exact ⟨_, .quote (hplace.shifted bytes lines) h, hrules, rfl⟩
  | bracket hplace h => exact ⟨_, .bracket (hplace.shifted bytes lines) h, hrules, rfl⟩
  | category hplace hcls h => exact ⟨_, .category (hplace.shifted bytes lines) hcls h, hrules, rfl⟩
  | reference hplace hcls => exact ⟨_, .reference (hplace.shifted bytes lines) hcls, hrules, rfl⟩
  | payload h => exact ⟨_, .payload h, hrules, rfl⟩
  | endLiteral h => exact ⟨_, .endLiteral h, hrules, rfl⟩

/-- Tokens are read further on, behind earlier rules, as they are without them, if they
    complete no rule whose name one of them has. -/
theorem Runs.shifted {rest : List Token} (h : draft.Runs rest later)
    (hfollows : Follows earlier bytes lines combined draft)
    (hfree : ∀ rule ∈ later.rules.rules, rule.name ∉ earlier.names) :
    ∃ after, combined.Runs (rest.map (Token.shifted bytes lines)) after ∧
      Follows earlier bytes lines after later := by
  induction rest generalizing draft combined with
  | nil =>
      obtain rfl : draft = later := h
      exact ⟨combined, rfl, hfollows⟩
  | cons token rest ih =>
      obtain ⟨middle, hreads, hrest⟩ := h
      obtain ⟨next, hnext, hfollows⟩ := hreads.shifted hfollows fun rule hrule =>
        hfree rule (hrest.rules_prefix.subset hrule)
      obtain ⟨after, hruns, hafter⟩ := ih hrest hfollows
      exact ⟨after, ⟨next, hnext, hruns⟩, hafter⟩

-- ============================================================================
-- Names
-- ============================================================================

end Draft

/-- The token that names the rule that is being read. -/
def Place.name? : Place → Option Token
  | .betweenRules => none
  | .afterName name => some name
  | .inSequence rule => some rule.name
  | .afterTilde rule _ => some rule.name
  | .afterQuote rule _ _ => some rule.name
  | .afterPayload rule _ _ _ => some rule.name

/-- The token that opens the literal that is being read. -/
def Place.quote? : Place → Option Token
  | .afterQuote _ _ quote => some quote
  | .afterPayload _ _ quote _ => some quote
  | _ => none

/-- Whether a token names a rule: it is a word, the rule has its text for a name, and begins
    where it does. -/
structure Token.Names (name : Token) (rule : Rule) : Prop where
  cls_eq : name.cls = .identifier
  text_eq : name.text = rule.name
  start_eq : name.span.start = rule.span.start

/-- What is known of a draft that some tokens led to: they name its rules, and the one that
    is being read, and a literal is opened with a quote. -/
structure Draft.Known (tokens : List Token) (draft : Draft) : Prop where
  names : ∀ rule ∈ draft.rules.rules, ∃ name ∈ tokens, name.Names rule
  name : ∀ name ∈ draft.place.name?, name ∈ tokens ∧ name.cls = .identifier
  quote : ∀ quote ∈ draft.place.quote?, (openingQuote? quote).isSome = true

namespace Draft

variable {earlier : RuleTable} {bytes lines : Nat} {draft later combined : Draft} {token : Token}

theorem known_blank (tokens : List Token) : blank.Known tokens :=
  ⟨fun _ h => (nomatch h), fun _ h => (nomatch h), fun _ h => (nomatch h)⟩

theorem name?_of_expects {place : Place} {start : Nat} {rule : OpenRule} {opening : Opening}
    (h : place.Expects start rule opening) : place.name? = some rule.name := by
  cases h <;> rfl

/-- Reading a token keeps what is known. -/
theorem Reads.known {tokens : List Token} (h : Reads draft token later)
    (hknown : draft.Known tokens) (hmem : token ∈ tokens) : later.Known tokens := by
  obtain ⟨hnames, hname, hquote⟩ := hknown
  have hnone : ∀ quote ∈ (none : Option Token), (openingQuote? quote).isSome = true := by
    rintro _ ⟨⟩
  cases h with
  | skip => exact ⟨hnames, hname, hquote⟩
  | stop => exact ⟨hnames, hname, hquote⟩
  | name h =>
      refine ⟨hnames, ?_, hnone⟩
      rintro _ ⟨⟩
      rw [isRuleName, Bool.and_eq_true, beq_iff_eq] at h
      exact ⟨hmem, h.1⟩
  | @endRule rules later rule _ last before halternations hcls helements hlater =>
      refine ⟨fun completed hcompleted => ?_, by rintro _ ⟨⟩, hnone⟩
      rw [hlater] at hcompleted
      rcases List.mem_append.1 hcompleted with hcompleted | hcompleted
      · exact hnames completed hcompleted
      · obtain rfl := List.mem_singleton.1 hcompleted
        obtain ⟨hmem, hcls⟩ := hname rule.name rfl
        exact ⟨rule.name, hmem, hcls, rfl, rfl⟩
  | define => exact ⟨hnames, hname, hnone⟩
  | bar => exact ⟨hnames, hname, hnone⟩
  | close => exact ⟨hnames, hname, hnone⟩
  | suffix => exact ⟨hnames, hname, hnone⟩
  | tilde => exact ⟨hnames, hname, hnone⟩
  | quote hplace h =>
      refine ⟨hnames, fun name h => hname name ((name?_of_expects hplace).trans h), ?_⟩
      rintro _ ⟨⟩
      exact h
  | bracket hplace =>
      exact ⟨hnames, fun name h => hname name ((name?_of_expects hplace).trans h), hnone⟩
  | category hplace =>
      exact ⟨hnames, fun name h => hname name ((name?_of_expects hplace).trans h), hnone⟩
  | reference hplace =>
      exact ⟨hnames, fun name h => hname name ((name?_of_expects hplace).trans h), hnone⟩
  | payload => exact ⟨hnames, hname, hquote⟩
  | endLiteral => exact ⟨hnames, hname, hnone⟩

theorem Runs.known {tokens rest : List Token} (h : draft.Runs rest later)
    (hknown : draft.Known tokens) (hmem : ∀ token ∈ rest, token ∈ tokens) :
    later.Known tokens := by
  induction rest generalizing draft with
  | nil => exact h ▸ hknown
  | cons token rest ih =>
      obtain ⟨middle, hreads, hrest⟩ := h
      obtain ⟨htoken, hmem⟩ := List.forall_mem_cons.1 hmem
      exact ih hrest (hreads.known hknown htoken) hmem

/-- No backslash is read as a symbol. -/
theorem Reads.not_backslash {tokens : List Token} (h : Reads draft token later)
    (hknown : draft.Known tokens) : token.isSymbol "\\" = false := by
  have hother : ∀ {text : String}, token.isSymbol text = true → text ≠ "\\" →
      token.isSymbol "\\" = false := Token.isSymbol_eq_false_of_ne
  have hcls : ∀ {cls : TokenClass}, token.cls = cls → cls ≠ .symbol →
      token.isSymbol "\\" = false := fun hcls hne => Token.isSymbol_eq_false_of_cls (hcls ▸ hne) _
  cases h with
  | skip h => exact hcls rfl (Place.cls_ne_symbol_of_mayStepOver h)
  | stop h => exact hcls h (by decide)
  | name h =>
      rw [isRuleName, Bool.and_eq_true, beq_iff_eq] at h
      exact hcls h.1 (by decide)
  | define h => exact hother h (by decide)
  | endRule _ h =>
      rcases h with h | h
      · exact hcls h (by decide)
      · exact hcls h (by decide)
  | bar _ _ h => exact hother h (by decide)
  | close _ _ h => exact hother h (by decide)
  | @suffix _ _ _ _ _ _ suffix _ h =>
      exact hother (Suffix.isSymbol_of_ofToken? h) (by cases suffix <;> decide)
  | tilde h => exact hother h (by decide)
  | quote _ h => exact isSymbol_eq_false_of_openingQuote? h (by decide)
  | bracket _ h => exact hother h (by decide)
  | category _ h => exact hcls h (by decide)
  | reference _ h => exact hcls h (by decide)
  | payload h => exact hcls h (by decide)
  | @endLiteral _ _ _ quote _ _ h =>
      refine hother h ?_
      rintro htext
      obtain ⟨-, c, rest, hchars, hc⟩ := quote_of_openingQuote? (hknown.quote quote rfl)
      rw [htext] at hchars
      obtain ⟨rfl, -⟩ := List.cons.inj hchars
      exact absurd hc (by decide)

-- ============================================================================
-- Names that are taken
-- ============================================================================

end Draft

namespace RuleTable

/-- The place of a rule with a name is that of the first one. -/
theorem rule?_of_id? {table : RuleTable} {name : String} {id : RuleId}
    (h : table.id? name = some id) : table.rule? id = table.find? name := by
  rw [← bind_rule?, h, Option.bind_some]

theorem mem_names_of_find? {table : RuleTable} {name : String} {rule : Rule}
    (h : table.find? name = some rule) : name ∈ table.names := by
  unfold find? at h
  have hname := List.find?_some h
  exact beq_iff_eq.1 hname ▸ List.mem_map_of_mem (List.mem_of_find?_eq_some h)

end RuleTable

namespace Draft

variable {earlier : RuleTable} {bytes lines : Nat} {draft later combined : Draft} {token : Token}

/-- The end of a rule whose name an earlier rule has is an error that names the line of
    that rule. -/
theorem Reads.clash {tokens seen : List Token} (h : Reads draft token later)
    (hfollows : Follows earlier bytes lines combined draft) (hknown : draft.Known seen)
    {rule original : Rule}
    (hrule : rule ∈ later.rules.rules) (horiginal : earlier.find? rule.name = some original) :
    ∃ name ∈ seen, name.Names rule ∧
      combined.read tokens (token.shifted bytes lines) =
        .error ⟨.redefinition rule.name (lineAt tokens original.span.start),
          name.shifted bytes lines⟩ := by
  have hnew : rule ∉ draft.rules.rules := fun hold =>
    hfollows.notMem_names hold (RuleTable.mem_names_of_find? horiginal)
  obtain ⟨combinedRules, combinedPlace⟩ := combined
  obtain ⟨hrules, rfl⟩ := hfollows
  cases h with
  | @endRule rules later completed _ last before halternations hcls helements hlater =>
      rw [hlater] at hrule
      obtain rfl := List.mem_singleton.1 ((List.mem_append.1 hrule).resolve_left hnew)
      obtain ⟨hseen, hname⟩ := hknown.name completed.name rfl
      refine ⟨completed.name, hseen, ⟨hname, rfl, rfl⟩, ?_⟩
      have hfind : combinedRules.find? completed.name.text = some original := by
        rw [RuleTable.find?, hrules, List.find?_append]
        exact (congrArg (Option.or · _) horiginal).trans Option.some_or
      obtain ⟨id, hid⟩ : ∃ id, combinedRules.id? completed.name.text = some id := by
        refine Option.ne_none_iff_exists'.1 fun hnone => ?_
        exact RuleTable.id?_eq_none_iff.1 hnone (RuleTable.mem_names_of_find? hfind)
      have hshifted : (completed.shifted bytes lines).elements =
          last.shifted bytes :: before.map (Node.shifted bytes) :=
        congrArg (List.map _) helements
      have halternations' : (completed.shifted bytes lines).alternations = [] :=
        List.map_eq_nil_iff.2 halternations
      have hcls' : (token.shifted bytes lines).cls = .line ∨
          (token.shifted bytes lines).cls = .ending := hcls
      refine (read_eq_endRule halternations' hcls').trans ?_
      rw [Draft.endRule, hshifted]
      dsimp only
      rw [RuleTable.insert_of_id? hid]
      dsimp only
      rw [RuleTable.rule?_of_id? hid, hfind]
      rfl
  | _ => exact absurd hrule hnew

/-- Of the rules that tokens complete the first one whose name an earlier rule has stops
    the reading. -/
theorem Runs.clash {tokens seen rest : List Token} (h : draft.Runs rest later)
    (hfollows : Follows earlier bytes lines combined draft) (hknown : draft.Known seen)
    (hseen : ∀ token ∈ rest, token ∈ seen) {rule original : Rule}
    (hrule : later.rules.rules.find? (fun rule => earlier.contains rule.name) = some rule)
    (horiginal : earlier.find? rule.name = some original) :
    ∃ name ∈ seen, name.Names rule ∧
      combined.readAll tokens (rest.map (Token.shifted bytes lines)) =
        .error ⟨.redefinition rule.name (lineAt tokens original.span.start),
          name.shifted bytes lines⟩ := by
  induction rest generalizing draft combined with
  | nil =>
      obtain rfl : draft = later := h
      exact absurd (RuleTable.mem_names_of_find? horiginal)
        (hfollows.notMem_names (List.mem_of_find?_eq_some hrule))
  | cons token rest ih =>
      obtain ⟨middle, hreads, hrest⟩ := h
      obtain ⟨htoken, hseen⟩ := List.forall_mem_cons.1 hseen
      rcases hmiddle : middle.rules.rules.find? (fun rule => earlier.contains rule.name) with
        _ | found
      · have hfree : ∀ rule ∈ middle.rules.rules, rule.name ∉ earlier.names := by
          intro rule hrule hname
          exact List.find?_eq_none.1 hmiddle rule hrule (RuleTable.contains_iff.2 hname)
        obtain ⟨next, hnext, hfollows⟩ := hreads.shifted hfollows hfree
        obtain ⟨name, hname, hnames, herror⟩ :=
          ih hrest hfollows (hreads.known hknown htoken) hseen
        refine ⟨name, hname, hnames, ?_⟩
        rw [List.map_cons, readAll, List.foldlM_cons, read_of_reads hnext]
        exact herror
      · -- The rule is complete behind this token, and stays the first one.
        obtain ⟨more, hmore⟩ := hrest.rules_prefix
        obtain rfl : found = rule := by
          rw [← hmore, List.find?_append, hmiddle, Option.some_or] at hrule
          exact Option.some.inj hrule
        obtain ⟨name, hname, hnames, herror⟩ :=
          hreads.clash hfollows hknown (List.mem_of_find?_eq_some hmiddle) horiginal
        refine ⟨name, hname, hnames, ?_⟩
        rw [List.map_cons, readAll, List.foldlM_cons, herror]
        rfl

end Draft

end TokenGrammar
