/-
  TokenGrammar.Grammar.Node

  The elements of a rule.  An element is a terminal, a reference to a rule or an
  alternation of sequences of elements; modifiers say how often it may match,
  what its failure means and what may stand before it.
-/
import TokenGrammar.Span

namespace TokenGrammar

-- ============================================================================
-- Terminals
-- ============================================================================

/-- What a terminal asks of the input other than a certain text. -/
inductive Category where
  | identifier
  | integer
  | number
  | string
  | keyword
  | symbol
  | endOfInput
  | endOfLine
  deriving DecidableEq, Repr, Inhabited

namespace Category

/-- All categories. -/
def all : List Category :=
  [.identifier, .integer, .number, .string, .keyword, .symbol, .endOfInput, .endOfLine]

/-- How a grammar writes the category. -/
def tag : Category → String
  | .identifier => "ID"
  | .integer => "INTEGER"
  | .number => "NUMBER"
  | .string => "STRING"
  | .keyword => "KEYWORD"
  | .symbol => "SYMBOL"
  | .endOfInput => "EOF"
  | .endOfLine => "EOL"

/-- The category that a grammar writes with a tag. -/
def ofTag? (tag : String) : Option Category := all.find? (·.tag == tag)

/-- The category in words. -/
def description : Category → String
  | .identifier => "an identifier"
  | .integer => "an integer"
  | .number => "a number"
  | .string => "a string"
  | .keyword => "a keyword"
  | .symbol => "a symbol"
  | .endOfInput => "end of input"
  | .endOfLine => "end of line"

theorem ofTag?_tag (category : Category) : ofTag? category.tag = some category := by
  cases category <;> decide

end Category

/-- An element that matches input by itself: a certain text, or anything of a
    category. -/
inductive Terminal where
  | literal (text : String)
  | ofCategory (category : Category)
  deriving DecidableEq, Repr

/-- The terminal as a grammar writes it.  A text that holds a double quote
    stands between single ones, and nothing in it is escaped. -/
def Terminal.shown : Terminal → String
  | .literal text =>
    let quote := if text.toList.contains '"' then "'" else "\""
    quote ++ text ++ quote
  | .ofCategory category => category.tag

-- ============================================================================
-- Elements
-- ============================================================================

/-- What is said about an element besides what it matches. -/
structure Modifiers where
  /-- Nothing may stand between the element and what comes before it. -/
  adjacent : Bool
  /-- The element need not match. -/
  optional : Bool
  /-- The element is matched again and again until it does not match. -/
  repeated : Bool
  /-- If the element does not match, nothing else is tried. -/
  fatal : Bool
  deriving DecidableEq, Repr

namespace Modifiers

/-- An element that is matched exactly once. -/
def plain : Modifiers := ⟨false, false, false, false⟩

/-- What a grammar writes before the element. -/
def before (modifiers : Modifiers) : String := if modifiers.adjacent then "~" else ""

/-- What a grammar writes behind the element. -/
def behind (modifiers : Modifiers) : String :=
  (if modifiers.optional then "?" else "") ++
    (if modifiers.repeated then "*" else "") ++
    (if modifiers.fatal then "!" else "")

end Modifiers

/-- An element of a rule, with its modifiers and its place in the source of the
    grammar.  An alternation that is taken once each does not take a branch again
    while it is repeated. -/
inductive Node where
  | terminal (modifiers : Modifiers) (span : Span) (pattern : Terminal)
  | ref (modifiers : Modifiers) (span : Span) (rule : String)
  | alternation (modifiers : Modifiers) (span : Span) (branches : List (List Node)) (onceEach : Bool)
  deriving Repr

namespace Node

/-- The modifiers of an element. -/
def modifiers : Node → Modifiers
  | .terminal modifiers _ _ => modifiers
  | .ref modifiers _ _ => modifiers
  | .alternation modifiers _ _ _ => modifiers

/-- Where an element stands in the source of its grammar. -/
def span : Node → Span
  | .terminal _ span _ => span
  | .ref _ span _ => span
  | .alternation _ span _ _ => span

/-- The same element with other modifiers. -/
def withModifiers (modifiers : Modifiers) : Node → Node
  | .terminal _ span pattern => .terminal modifiers span pattern
  | .ref _ span rule => .ref modifiers span rule
  | .alternation _ span branches onceEach => .alternation modifiers span branches onceEach

/-- The same element at another place. -/
def withSpan (span : Span) : Node → Node
  | .terminal modifiers _ pattern => .terminal modifiers span pattern
  | .ref modifiers _ rule => .ref modifiers span rule
  | .alternation modifiers _ branches onceEach => .alternation modifiers span branches onceEach

/-- Whether an element is an alternation each branch of which may be taken only
    once while it is repeated. -/
def isOnceEach : Node → Bool
  | .alternation _ _ _ onceEach => onceEach
  | _ => false

mutual

/-- Whether two elements are equal. -/
def decEq : (node other : Node) → Decidable (node = other)
  | .terminal modifiers span pattern, .terminal modifiers' span' pattern' =>
    decidable_of_iff (modifiers = modifiers' ∧ span = span' ∧ pattern = pattern') (by simp)
  | .ref modifiers span rule, .ref modifiers' span' rule' =>
    decidable_of_iff (modifiers = modifiers' ∧ span = span' ∧ rule = rule') (by simp)
  | .alternation modifiers span branches onceEach,
      .alternation modifiers' span' branches' onceEach' =>
    haveI := decEqBranches branches branches'
    decidable_of_iff
      (modifiers = modifiers' ∧ span = span' ∧ branches = branches' ∧ onceEach = onceEach')
      (by simp)
  | .terminal .., .ref .. | .terminal .., .alternation .. | .ref .., .terminal ..
  | .ref .., .alternation .. | .alternation .., .terminal .. | .alternation .., .ref .. =>
    .isFalse nofun

/-- Whether two sequences of elements are equal. -/
def decEqElements : (nodes others : List Node) → Decidable (nodes = others)
  | [], [] => .isTrue rfl
  | [], _ :: _ | _ :: _, [] => .isFalse nofun
  | node :: nodes, other :: others =>
    haveI := decEq node other
    haveI := decEqElements nodes others
    decidable_of_iff (node = other ∧ nodes = others) (by simp)

/-- Whether two lists of branches are equal. -/
def decEqBranches : (branches others : List (List Node)) → Decidable (branches = others)
  | [], [] => .isTrue rfl
  | [], _ :: _ | _ :: _, [] => .isFalse nofun
  | branch :: branches, other :: others =>
    haveI := decEqElements branch other
    haveI := decEqBranches branches others
    decidable_of_iff (branch = other ∧ branches = others) (by simp)

end

instance : DecidableEq Node := decEq

/-- The elements directly inside an element, branch after branch. -/
def children : Node → List Node
  | .terminal .. => []
  | .ref .. => []
  | .alternation _ _ branches _ => branches.flatten

/-- What holds of an element whenever it holds of all elements inside it holds of every
    element. -/
theorem induction {motive : Node → Prop}
    (terminal : ∀ modifiers span pattern, motive (.terminal modifiers span pattern))
    (ref : ∀ modifiers span rule, motive (.ref modifiers span rule))
    (alternation : ∀ modifiers span branches onceEach,
      (∀ branch ∈ branches, ∀ node ∈ branch, motive node) →
      motive (.alternation modifiers span branches onceEach))
    (node : Node) : motive node := by
  refine @Node.rec motive (fun branches => ∀ branch ∈ branches, ∀ node ∈ branch, motive node)
    (fun branch => ∀ node ∈ branch, motive node) terminal ref alternation ?_ ?_ ?_ ?_ node
  · exact fun branch h => nomatch h
  · exact fun branch rest hbranch hrest => List.forall_mem_cons.2 ⟨hbranch, hrest⟩
  · exact fun node h => nomatch h
  · exact fun node rest hnode hrest => List.forall_mem_cons.2 ⟨hnode, hrest⟩

/-! ## Elements as a grammar writes them -/

mutual

/-- An element as a grammar writes it. -/
def shown : Node → String
  | .terminal modifiers _ pattern => modifiers.before ++ pattern.shown ++ modifiers.behind
  | .ref modifiers _ rule => modifiers.before ++ rule ++ modifiers.behind
  | .alternation modifiers _ branches onceEach =>
    modifiers.before ++ "[ " ++ " | ".intercalate (shownBranches branches) ++ " ]" ++
      (if onceEach then "$" else "") ++ modifiers.behind

/-- The elements of a sequence, each as a grammar writes it. -/
def shownElements : List Node → List String
  | [] => []
  | node :: rest => node.shown :: shownElements rest

/-- The branches of an alternation, each as a grammar writes it. -/
def shownBranches : List (List Node) → List String
  | [] => []
  | branch :: rest => " ".intercalate (shownElements branch) :: shownBranches rest

end

theorem shownElements_eq_map (nodes : List Node) : shownElements nodes = nodes.map shown := by
  induction nodes with
  | nil => rfl
  | cons node rest ih => rw [shownElements, ih, List.map_cons]

/-! ## Elements inside elements -/

mutual

/-- An element and all elements inside it: first the element itself, then what
    its last child holds, and so on back to its first child. -/
def visits : Node → List Node
  | .terminal modifiers span pattern => [.terminal modifiers span pattern]
  | .ref modifiers span rule => [.ref modifiers span rule]
  | .alternation modifiers span branches onceEach =>
    .alternation modifiers span branches onceEach :: branchVisits branches

/-- All elements of a sequence and inside of them, from the last one back. -/
def sequenceVisits : List Node → List Node
  | [] => []
  | node :: rest => sequenceVisits rest ++ node.visits

/-- All elements of some branches and inside of them, from the last one back. -/
def branchVisits : List (List Node) → List Node
  | [] => []
  | branch :: rest => branchVisits rest ++ sequenceVisits branch

end

theorem sequenceVisits_append (nodes more : List Node) :
    sequenceVisits (nodes ++ more) = sequenceVisits more ++ sequenceVisits nodes := by
  induction nodes with
  | nil => simp [sequenceVisits]
  | cons node rest ih => simp [sequenceVisits, ih]

theorem branchVisits_eq_sequenceVisits_flatten (branches : List (List Node)) :
    branchVisits branches = sequenceVisits branches.flatten := by
  induction branches with
  | nil => rfl
  | cons branch rest ih => rw [branchVisits, ih, List.flatten_cons, sequenceVisits_append]

/-- The elements inside an element are those of its children. -/
theorem visits_eq_cons (node : Node) : node.visits = node :: sequenceVisits node.children := by
  cases node with
  | terminal => rw [visits, children, sequenceVisits]
  | ref => rw [visits, children, sequenceVisits]
  | alternation modifiers span branches onceEach =>
    rw [visits, branchVisits_eq_sequenceVisits_flatten, children]

end Node

end TokenGrammar
