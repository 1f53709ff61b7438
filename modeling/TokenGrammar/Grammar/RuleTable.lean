/-
  TokenGrammar.Grammar.RuleTable

  The rules of a grammar in the order of their definition.  A name belongs to
  the rule that took it first.
-/
import TokenGrammar.Grammar.Node
import TokenGrammar.Sorted

namespace TokenGrammar

/-- The name of the rule that matching begins with. -/
def rootName : String := "ROOT"

/-- A rule: a name for a sequence of elements, and where it is defined. -/
structure Rule where
  name : String
  nodes : List Node
  span : Span
  deriving DecidableEq, Repr

/-- Rules with distinct names, in the order of their definition. -/
structure RuleTable where
  rules : List Rule
  nodup_names : (rules.map Rule.name).Nodup := by decide
  deriving DecidableEq

/-- A rule's place among the rules of its table. -/
structure RuleId where
  index : Nat
  deriving DecidableEq, Repr

namespace RuleTable

/-- A table without rules. -/
def empty : RuleTable where
  rules := []

/-- The names of the rules. -/
def names (table : RuleTable) : List String := table.rules.map Rule.name

/-- How many rules there are. -/
def size (table : RuleTable) : Nat := table.rules.length

/-- The place of the rule that has a name. -/
def id? (table : RuleTable) (name : String) : Option RuleId :=
  (table.rules.findIdx? (·.name == name)).map RuleId.mk

/-- The rule that has a name. -/
def find? (table : RuleTable) (name : String) : Option Rule :=
  table.rules.find? (·.name == name)

/-- The rule at a place. -/
def rule? (table : RuleTable) (id : RuleId) : Option Rule := table.rules[id.index]?

/-- The name of the rule at a place.  A place of another table may have none. -/
def nameOf (table : RuleTable) (id : RuleId) : String :=
  ((table.rule? id).map Rule.name).getD "<unknown>"

/-- The elements of the rule that has a name. -/
def nodes? (table : RuleTable) (name : String) : Option (List Node) :=
  (table.find? name).map Rule.nodes

/-- Whether a rule has the name. -/
def contains (table : RuleTable) (name : String) : Bool := table.rules.any (·.name == name)

/-! ## Adding rules -/

theorem id?_eq_none_iff {table : RuleTable} {name : String} :
    table.id? name = none ↔ name ∉ table.names := by
  simp [id?, names, List.findIdx?_eq_none_iff]

theorem nodup_names_append {table : RuleTable} {rule : Rule}
    (h : table.id? rule.name = none) : ((table.rules ++ [rule]).map Rule.name).Nodup := by
  have fresh : rule.name ∉ table.names := id?_eq_none_iff.1 h
  rw [List.map_append, List.nodup_append]
  refine ⟨table.nodup_names, by simp, ?_⟩
  simp only [List.map_cons, List.map_nil, List.mem_singleton]
  rintro name hname _ rfl rfl
  exact fresh hname

/-- The table with one more rule at its end and the place of that rule, or the
    place of the rule that has the name already. -/
def insert (table : RuleTable) (rule : Rule) : Except RuleId (RuleId × RuleTable) :=
  match h : table.id? rule.name with
  | some id => .error id
  | none => .ok (⟨table.size⟩, ⟨table.rules ++ [rule], nodup_names_append h⟩)

/-! ## Looking through all rules -/

/-- All elements of all rules with the names of their rules: rule by rule, and
    within a rule from its last element back. -/
def visits (table : RuleTable) : List (String × Node) :=
  table.rules.flatMap fun rule => (Node.sequenceVisits rule.nodes).map (rule.name, ·)

/-- The order of pairs of names: by the first name, then by the second. -/
def namesBefore (a b : String × String) : Bool :=
  decide (a.1 < b.1) || (a.1 == b.1 && decide (a.2 < b.2))

/-- The references to rules that do not exist: the name of the rule that refers
    and the name that it refers to, sorted and each pair once. -/
def undefinedRefs (table : RuleTable) : List (String × String) :=
  sorted namesBefore <| table.visits.filterMap fun (rule, node) =>
    match node with
    | .ref _ _ target => if table.contains target then none else some (rule, target)
    | _ => none

/-- Whether an element ever asks for the end of a line. -/
def usesLineEnds (table : RuleTable) : Bool :=
  table.visits.any fun (_, node) =>
    match node with
    | .terminal _ _ (.ofCategory .endOfLine) => true
    | _ => false

/-- The texts of all literals. -/
def literals (table : RuleTable) : List String :=
  table.visits.filterMap fun (_, node) =>
    match node with
    | .terminal _ _ (.literal text) => some text
    | _ => none

/-- The rules as a grammar writes them, one on a line. -/
def shown (table : RuleTable) : String :=
  String.join <| table.rules.map fun rule =>
    rule.name ++ " := " ++ " ".intercalate (rule.nodes.map Node.shown) ++ "\n"

end RuleTable

end TokenGrammar
