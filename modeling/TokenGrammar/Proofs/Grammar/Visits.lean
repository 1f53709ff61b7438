/-
  TokenGrammar.Proofs.Grammar.Visits

  The elements of a rule table.  Looking through all rules comes past every element of
  every rule, and past whatever stands inside of one, however deep
  (`RuleTable.Has.inner`, `RuleTable.passes_has`), and past nothing else
  (`Node.standsIn_iff`).  So the references that lead nowhere are
  exactly those listed (`RuleTable.mem_undefinedRefs`), and if there are none, every
  reference leads to the elements of a rule (`RuleTable.nodes?_of_undefinedRefs_eq_nil`).
  If all elements are changed, inside of each other as well, looking through the rules comes
  past the changed elements (`RuleTable.visits_mapNodes`).
-/

import TokenGrammar.Grammar.RuleTable

namespace TokenGrammar

-- ============================================================================
-- Elements inside elements
-- ============================================================================

namespace Node

theorem mem_visits_self (node : Node) : node ∈ node.visits := by
  rw [visits_eq_cons]
  exact List.mem_cons_self

/-- What stands in a sequence stands in one of its elements. -/
theorem mem_sequenceVisits {nodes : List Node} {inner : Node} :
    inner ∈ sequenceVisits nodes ↔ ∃ node ∈ nodes, inner ∈ node.visits := by
  induction nodes with
  | nil => simp [sequenceVisits]
  | cons node rest ih =>
      simp only [sequenceVisits, List.mem_append, ih, List.mem_cons, exists_eq_or_imp, or_comm]

/-- What stands in a child of an element that stands in another one stands in that, too. -/
theorem mem_visits_of_mem_children {outer node inner : Node} (hnode : node ∈ outer.visits)
    (hinner : inner ∈ node.children) : inner ∈ outer.visits := by
  have hchild : ∀ {outer : Node}, inner ∈ outer.children → inner ∈ outer.visits := by
    intro outer h
    rw [visits_eq_cons]
    exact List.mem_cons_of_mem _ (mem_sequenceVisits.2 ⟨inner, h, inner.mem_visits_self⟩)
  induction outer using Node.induction with
  | terminal modifiers span pattern =>
      rw [visits, List.mem_singleton] at hnode
      subst hnode
      exact hchild hinner
  | ref modifiers span rule =>
      rw [visits, List.mem_singleton] at hnode
      subst hnode
      exact hchild hinner
  | alternation modifiers span branches onceEach ih =>
      rw [visits_eq_cons, List.mem_cons] at hnode
      rcases hnode with rfl | hnode
      · exact hchild hinner
      · obtain ⟨child, hmem, hnode⟩ := mem_sequenceVisits.1 hnode
        obtain ⟨branch, hbranch, hmember⟩ := List.mem_flatten.1 hmem
        rw [visits_eq_cons]
        exact List.mem_cons_of_mem _
          (mem_sequenceVisits.2 ⟨child, hmem, ih branch hbranch child hmember hnode⟩)

/-- Whether an element stands in a sequence: it is one of its elements, or stands in a
    branch of one of them, at any depth. -/
inductive StandsIn (inner : Node) : List Node → Prop where
  | here {nodes : List Node} (h : inner ∈ nodes) : StandsIn inner nodes
  | inside {modifiers : Modifiers} {span : Span} {branches : List (List Node)} {onceEach : Bool}
      {nodes branch : List Node} (h : .alternation modifiers span branches onceEach ∈ nodes)
      (hbranch : branch ∈ branches) (hinner : StandsIn inner branch) : StandsIn inner nodes

theorem standsIn_of_mem_visits {node inner : Node} (h : inner ∈ node.visits) {nodes : List Node}
    (hnode : node ∈ nodes) : StandsIn inner nodes := by
  induction node using Node.induction generalizing nodes with
  | terminal =>
      rw [visits, List.mem_singleton] at h
      exact .here (h ▸ hnode)
  | ref =>
      rw [visits, List.mem_singleton] at h
      exact .here (h ▸ hnode)
  | alternation modifiers span branches onceEach ih =>
      rw [visits_eq_cons, List.mem_cons] at h
      rcases h with rfl | h
      · exact .here hnode
      · obtain ⟨child, hchild, hinner⟩ := mem_sequenceVisits.1 h
        obtain ⟨branch, hbranch, hchild⟩ := List.mem_flatten.1 hchild
        exact .inside hnode hbranch (ih branch hbranch child hchild hinner hchild)

/-- What stands in a sequence is what looking through it comes past. -/
theorem standsIn_iff {nodes : List Node} {inner : Node} :
    StandsIn inner nodes ↔ inner ∈ sequenceVisits nodes := by
  constructor
  · intro h
    induction h with
    | here h => exact mem_sequenceVisits.2 ⟨inner, h, inner.mem_visits_self⟩
    | @inside modifiers span branches onceEach nodes branch h hbranch _ ih =>
        obtain ⟨child, hchild, hinner⟩ := mem_sequenceVisits.1 ih
        refine mem_sequenceVisits.2 ⟨_, h, ?_⟩
        rw [visits_eq_cons]
        exact List.mem_cons_of_mem _
          (mem_sequenceVisits.2 ⟨child, List.mem_flatten_of_mem hbranch hchild, hinner⟩)
  · intro h
    obtain ⟨node, hnode, hinner⟩ := mem_sequenceVisits.1 h
    exact standsIn_of_mem_visits hinner hnode

end Node

-- ============================================================================
-- Elements of rules
-- ============================================================================

namespace RuleTable

variable {rules : RuleTable}

/-- Whether an element stands in some rule. -/
def Has (rules : RuleTable) (node : Node) : Prop := ∃ name, (name, node) ∈ rules.visits

theorem mem_visits {name : String} {node : Node} :
    (name, node) ∈ rules.visits ↔
      ∃ rule ∈ rules.rules, rule.name = name ∧ node ∈ Node.sequenceVisits rule.nodes := by
  simp only [visits, List.mem_flatMap, List.mem_map, Prod.mk.injEq]
  constructor
  · rintro ⟨rule, hrule, _, hnode, rfl, rfl⟩
    exact ⟨rule, hrule, rfl, hnode⟩
  · rintro ⟨rule, hrule, rfl, hnode⟩
    exact ⟨rule, hrule, node, hnode, rfl, rfl⟩

/-- With an element the rules have all that stands inside of it. -/
theorem Has.inner {node inner : Node} (h : rules.Has node) (hinner : inner ∈ node.children) :
    rules.Has inner := by
  obtain ⟨name, hvisits⟩ := h
  obtain ⟨rule, hrule, hname, hnode⟩ := mem_visits.1 hvisits
  obtain ⟨outer, houter, hnode⟩ := Node.mem_sequenceVisits.1 hnode
  have hmem := Node.mem_visits_of_mem_children hnode hinner
  exact ⟨name, mem_visits.2 ⟨rule, hrule, hname, Node.mem_sequenceVisits.2 ⟨outer, houter, hmem⟩⟩⟩

/-- The rules have the elements of every rule that a name leads to. -/
theorem has_of_nodes? {name : String} {nodes : List Node} (h : rules.nodes? name = some nodes) :
    ∀ node ∈ nodes, rules.Has node := by
  intro node hnode
  obtain ⟨rule, hfind, rfl⟩ := Option.map_eq_some_iff.1 h
  have hvisits := Node.mem_sequenceVisits.2 ⟨node, hnode, node.mem_visits_self⟩
  exact ⟨rule.name, mem_visits.2 ⟨rule, List.mem_of_find?_eq_some hfind, rfl, hvisits⟩⟩

/-- Whether a literal with a text stands anywhere in the rules. -/
def HasLiteral (rules : RuleTable) (text : String) : Prop :=
  ∃ rule ∈ rules.rules, ∃ modifiers span,
    Node.StandsIn (.terminal modifiers span (.literal text)) rule.nodes

/-- The texts of all literals are those of the literals that stand anywhere. -/
theorem mem_literals {text : String} : text ∈ rules.literals ↔ rules.HasLiteral text := by
  rw [literals, List.mem_filterMap]
  constructor
  · rintro ⟨⟨name, node⟩, hvisits, htext⟩
    obtain ⟨rule, hrule, -, hnode⟩ := mem_visits.1 hvisits
    dsimp only at htext
    split at htext
    · obtain rfl := Option.some.inj htext
      exact ⟨rule, hrule, _, _, Node.standsIn_iff.2 hnode⟩
    · cases htext
  · rintro ⟨rule, hrule, modifiers, span, hstands⟩
    exact ⟨(rule.name, _), mem_visits.2 ⟨rule, hrule, rfl, Node.standsIn_iff.1 hstands⟩, rfl⟩

/-- Whether a property of elements passes on to the elements inside of them and to those of
    the rules that they refer to. -/
structure Passes (rules : RuleTable) (allowed : Node → Prop) : Prop where
  child {node inner : Node} (h : allowed node) (hinner : inner ∈ node.children) : allowed inner
  rule {modifiers : Modifiers} {span : Span} {name : String} {nodes : List Node}
    (h : allowed (.ref modifiers span name)) (hnodes : rules.nodes? name = some nodes) :
    ∀ inner ∈ nodes, allowed inner

/-- Whether the branches of an alternation have a property that passes on. -/
theorem Passes.branch {allowed : Node → Prop} (h : rules.Passes allowed) {modifiers : Modifiers}
    {span : Span} {branches : List (List Node)} {onceEach : Bool}
    (hnode : allowed (.alternation modifiers span branches onceEach)) :
    ∀ branch ∈ branches, ∀ inner ∈ branch, allowed inner :=
  fun branch hbranch _ hinner => h.child hnode (List.mem_flatten.2 ⟨branch, hbranch, hinner⟩)

theorem passes_true (rules : RuleTable) : rules.Passes fun _ => True :=
  ⟨fun _ _ => trivial, fun _ _ _ _ => trivial⟩

/-- That an element stands in the rules passes on. -/
theorem passes_has (rules : RuleTable) : rules.Passes rules.Has :=
  ⟨.inner, fun _ => has_of_nodes?⟩

-- ============================================================================
-- References
-- ============================================================================

/-- A name leads to elements if some rule has it. -/
theorem exists_nodes?_of_contains {name : String} (h : rules.contains name = true) :
    ∃ nodes, rules.nodes? name = some nodes := by
  have hfind : (rules.find? name).isSome = true := List.find?_isSome.2 (List.any_eq_true.1 h)
  obtain ⟨rule, hrule⟩ := Option.isSome_iff_exists.1 hfind
  exact ⟨rule.nodes, by rw [nodes?, hrule, Option.map_some]⟩

/-- Neither of two different pairs of names comes before itself, so one comes before the
    other. -/
theorem separates_namesBefore : Separates namesBefore := by
  have hnames : ∀ {a b : String}, ¬a < b → ¬b < a → a = b :=
    fun hab hba => String.le_antisymm (String.not_lt.1 hba) (String.not_lt.1 hab)
  rintro ⟨a, b⟩ ⟨c, d⟩ hbefore hafter
  simp only [namesBefore, Bool.or_eq_false_iff, Bool.and_eq_false_iff, decide_eq_false_iff_not,
    beq_eq_false_iff_ne] at hbefore hafter
  obtain rfl : a = c := hnames hbefore.1 hafter.1
  obtain rfl : b = d :=
    hnames (hbefore.2.resolve_left fun h => h rfl) (hafter.2.resolve_left fun h => h rfl)
  rfl

/-- The undefined references are the references to names that no rule has. -/
theorem mem_undefinedRefs {name target : String} :
    (name, target) ∈ rules.undefinedRefs ↔
      (∃ modifiers span, (name, .ref modifiers span target) ∈ rules.visits) ∧
        rules.contains target = false := by
  rw [undefinedRefs, mem_sorted separates_namesBefore, List.mem_filterMap]
  constructor
  · rintro ⟨⟨owner, node⟩, hmem, hnode⟩
    cases node with
    | terminal modifiers span pattern => cases hnode
    | alternation modifiers span branches onceEach => cases hnode
    | ref modifiers span rule =>
        dsimp only at hnode
        split at hnode
        · cases hnode
        · next hcontains =>
          cases hnode
          exact ⟨⟨modifiers, span, hmem⟩, Bool.eq_false_iff.2 hcontains⟩
  · rintro ⟨⟨modifiers, span, hmem⟩, hcontains⟩
    exact ⟨_, hmem, by simp [hcontains]⟩

/-- Without undefined references every reference leads to the elements of a rule. -/
theorem nodes?_of_undefinedRefs_eq_nil (h : rules.undefinedRefs = []) {modifiers : Modifiers}
    {span : Span} {target : String} (hhas : rules.Has (.ref modifiers span target)) :
    ∃ nodes, rules.nodes? target = some nodes := by
  obtain ⟨name, hvisits⟩ := hhas
  refine exists_nodes?_of_contains (Bool.not_eq_false _ ▸ fun hcontains => ?_)
  have hmem := mem_undefinedRefs.2 ⟨⟨modifiers, span, hvisits⟩, hcontains⟩
  rw [h] at hmem
  cases hmem

end RuleTable

-- ============================================================================
-- Rules with other elements
-- ============================================================================

section

variable {change : Node → Node}
  (hchildren : ∀ node, (change node).children = node.children.map change)

theorem Node.sequenceVisits_map {nodes : List Node}
    (h : ∀ node ∈ nodes, (change node).visits = node.visits.map change) :
    sequenceVisits (nodes.map change) = (sequenceVisits nodes).map change := by
  induction nodes with
  | nil => rfl
  | cons node rest ih =>
      obtain ⟨hnode, hrest⟩ := List.forall_mem_cons.1 h
      rw [List.map_cons, sequenceVisits, sequenceVisits, List.map_append, ih hrest, hnode]

include hchildren in
/-- A change of elements that is made inside of them as well keeps the places of all
    elements. -/
theorem Node.visits_change (node : Node) : (change node).visits = node.visits.map change := by
  have hnode {node : Node}
      (h : ∀ inner ∈ node.children, (change inner).visits = inner.visits.map change) :
      (change node).visits = node.visits.map change := by
    rw [visits_eq_cons, visits_eq_cons node, List.map_cons, hchildren, sequenceVisits_map h]
  induction node using Node.induction with
  | terminal | ref => exact hnode fun _ hmem => nomatch hmem
  | alternation modifiers span branches onceEach ih =>
      refine hnode fun inner hinner => ?_
      obtain ⟨branch, hbranch, hmem⟩ := List.mem_flatten.1 hinner
      exact ih branch hbranch inner hmem

namespace RuleTable

/-- The same rules with other elements. -/
def mapNodes (rules : RuleTable) (change : Node → Node) : RuleTable where
  rules := rules.rules.map fun rule => { rule with nodes := rule.nodes.map change }
  nodup_names := by
    rw [List.map_map]
    exact rules.nodup_names

theorem nodes?_mapNodes (rules : RuleTable) (name : String) :
    (rules.mapNodes change).nodes? name = (rules.nodes? name).map (·.map change) := by
  have hfind : (rules.mapNodes change).find? name =
      (rules.find? name).map fun rule => { rule with nodes := rule.nodes.map change } :=
    List.find?_map
  rw [nodes?, nodes?, hfind, Option.map_map, Option.map_map]
  rfl

include hchildren in
theorem visits_mapNodes (rules : RuleTable) :
    (rules.mapNodes change).visits = rules.visits.map fun visit => (visit.1, change visit.2) := by
  rw [visits, visits, List.map_flatMap, mapNodes, List.flatMap_map]
  congr 1
  funext rule
  have hnodes := Node.sequenceVisits_map fun node (_ : node ∈ rule.nodes) =>
    Node.visits_change hchildren node
  rw [hnodes, List.map_map, List.map_map]
  rfl

end RuleTable

end

end TokenGrammar
