/-
  TokenGrammar.Proofs.Match.Reachable

  The rules that a match may come to: `ROOT`, and from the elements of a rule every name
  that they refer to, however deep the reference stands.  Two tables that give the same
  elements to all of these names are matched side by side, each run with the elements of
  its own table.  Where an element stood in its grammar shows nowhere, not even in the
  message about an element that repeats without consuming any input.

  Main statement: `RuleTable.only_reached_rules_matter`.
-/

import TokenGrammar.Proofs.Grammar.Pieces
import TokenGrammar.Proofs.Match.Return
import TokenGrammar.Proofs.Match.SideBySide

namespace TokenGrammar

variable {σ : Type}

-- ============================================================================
-- Rules that are reached
-- ============================================================================

namespace RuleTable

/-- Whether a match may come to look a name up: matching begins with `ROOT`, and the
    elements of a rule that has been looked up refer to further names. -/
inductive Reaches (rules : RuleTable) : String → Prop where
  | root : Reaches rules rootName
  | ref {name target : String} {nodes : List Node} {modifiers : Modifiers} {span : Span}
      (h : Reaches rules name) (hnodes : rules.nodes? name = some nodes)
      (hmem : .ref modifiers span target ∈ Node.sequenceVisits nodes) : Reaches rules target

/-- Whether a match may come to an element. -/
def ReachesNode (rules : RuleTable) (node : Node) : Prop :=
  ∃ name nodes, rules.Reaches name ∧ rules.nodes? name = some nodes ∧
    node ∈ Node.sequenceVisits nodes

/-- Whether two tables give the same elements to a name, wherever they stand, or both
    none. -/
def GivesAlike (left right : RuleTable) (name : String) : Prop :=
  (left.nodes? name).map (·.map Node.forgetSpans) =
    (right.nodes? name).map (·.map Node.forgetSpans)

variable {left right : RuleTable}

/-- The elements of a rule that is reached are. -/
theorem Reaches.reachesNode {name : String} {nodes : List Node} (h : left.Reaches name)
    (hnodes : left.nodes? name = some nodes) : ∀ node ∈ nodes, left.ReachesNode node :=
  fun node hnode =>
    ⟨name, nodes, h, hnodes, Node.mem_sequenceVisits.2 ⟨node, hnode, node.mem_visits_self⟩⟩

/-- That an element is reached passes on. -/
theorem passes_reachesNode (rules : RuleTable) : rules.Passes rules.ReachesNode where
  child := by
    rintro node inner ⟨name, nodes, hname, hnodes, hmem⟩ hinner
    obtain ⟨outer, houter, hnode⟩ := Node.mem_sequenceVisits.1 hmem
    have hvisits := Node.mem_visits_of_mem_children hnode hinner
    exact ⟨name, nodes, hname, hnodes, Node.mem_sequenceVisits.2 ⟨outer, houter, hvisits⟩⟩
  rule := by
    rintro modifiers span target nodes ⟨name, outer, hname, houter, hmem⟩ hnodes
    exact (hname.ref houter hmem).reachesNode hnodes

end RuleTable

-- ============================================================================
-- Elements at other places
-- ============================================================================

namespace Node

theorem modifiers_forgetSpans (node : Node) : node.forgetSpans.modifiers = node.modifiers := by
  cases node <;> rfl

/-- Elements that differ in their places only are written alike. -/
theorem shown_eq_of_forgetSpans_eq {node other : Node} (h : node.forgetSpans = other.forgetSpans) :
    node.shown = other.shown := by
  rw [← String.toList_inj, toList_shown, toList_shown, ← pieces_forgetSpans node, h,
    pieces_forgetSpans]

end Node

/-- What is said of an element that repeats without consuming any input does not depend on
    where it stands. -/
theorem Abort.message_emptyRepetition_eq {node other : Node}
    (h : node.forgetSpans = other.forgetSpans) :
    (emptyRepetition node).message = (emptyRepetition other).message :=
  congrArg (fun shown => "`" ++ shown ++ "` repeats without consuming any input")
    (Node.shown_eq_of_forgetSpans_eq h)

/-- Lists with the same images are related element by element. -/
theorem forall₂_of_map_eq {α β : Type} {f : α → β} {p : α → Prop} {xs ys : List α}
    (h : xs.map f = ys.map f) (hp : ∀ x ∈ xs, p x) :
    List.Forall₂ (fun x y => p x ∧ f x = f y) xs ys := by
  have heq : List.Forall₂ (· = ·) (xs.map f) (ys.map f) := List.forall₂_eq_eq_eq ▸ h
  rw [List.forall₂_map_left_iff, List.forall₂_map_right_iff] at heq
  exact (List.forall₂_and_left xs ys).2 ⟨hp, heq⟩

-- ============================================================================
-- Runs of two tables
-- ============================================================================

namespace Setting

/-- A run of one table beside a run of another, where the elements at hand are the same
    but for their places. -/
def displacing (rules : RuleTable) : Pairing σ σ where
  node m n := rules.ReachesNode m ∧ m.forgetSpans = n.forgetSpans
  track t u := t = u
  failure f g := f = g
  stop a t b u := a.message = b.message ∧ t = u

variable {left right : RuleTable}

/-- Whatever does not depend on the elements comes out the same. -/
theorem displacing_refl (passage : Passage σ) : (displacing left).Passages passage passage := by
  rcases passage with ⟨_ | failure | abort, track⟩
  · exact .matched rfl
  · exact .failed rfl rfl
  · exact .stopped ⟨rfl, rfl⟩

theorem displacing_sequence {nodes nodes' : List Node}
    (h : nodes.map Node.forgetSpans = nodes'.map Node.forgetSpans)
    (hreached : ∀ node ∈ nodes, left.ReachesNode node) :
    List.Forall₂ (displacing left : Pairing σ σ).node nodes nodes' :=
  forall₂_of_map_eq h hreached

/-- Names that are reached lead to paired elements in both tables. -/
theorem displacing_nodes? (h : ∀ name, left.Reaches name → left.GivesAlike right name)
    {name : String} (hname : left.Reaches name) :
    Option.Rel (List.Forall₂ (displacing left : Pairing σ σ).node) (left.nodes? name)
      (right.nodes? name) := by
  have halike := h name hname
  have hreached := @RuleTable.Reaches.reachesNode left name
  unfold RuleTable.GivesAlike at halike
  generalize left.nodes? name = found at halike hreached ⊢
  generalize right.nodes? name = found' at halike ⊢
  rcases found with _ | nodes <;> rcases found' with _ | nodes'
  · exact .none
  · cases halike
  · cases halike
  · exact .some (displacing_sequence (Option.some.inj halike) (hreached hname rfl))

/-- Elements that are the same but for their places are of one kind. -/
theorem displacing_alike (h : ∀ name, left.Reaches name → left.GivesAlike right name)
    {m n : Node} (hnode : (displacing left : Pairing σ σ).node m n) :
    Node.Alike (displacing left : Pairing σ σ).node left right m n := by
  obtain ⟨hreached, hspans⟩ := hnode
  cases m with
  | terminal modifiers span pattern =>
      cases n with
      | terminal => exact .terminal _ _ _ _ _ _
      | ref => cases hspans
      | alternation => cases hspans
  | ref modifiers span name =>
      cases n with
      | terminal => cases hspans
      | alternation => cases hspans
      | ref modifiers' span' name' =>
          obtain rfl : name = name' := (Node.ref.inj hspans).2.2
          obtain ⟨outer, nodes, houter, hnodes, hmem⟩ := hreached
          have hrel := displacing_nodes? (σ := σ) h (houter.ref hnodes hmem)
          rcases hleft : left.nodes? name with _ | nodes <;>
            rcases hright : right.nodes? name with _ | nodes' <;> rw [hleft, hright] at hrel
          · exact .undefined hleft hright
          · cases hrel
          · cases hrel
          · cases hrel with
            | some hnodes => exact .ref hleft hright hnodes
  | alternation modifiers span branches onceEach =>
      cases n with
      | terminal => cases hspans
      | ref => cases hspans
      | alternation modifiers' span' branches' onceEach' =>
          obtain ⟨-, -, hbranches, rfl⟩ := Node.alternation.inj hspans
          rw [Node.forgetSpansOfBranches_eq_map, Node.forgetSpansOfBranches_eq_map] at hbranches
          have hinner := left.passes_reachesNode.branch hreached
          refine .alternation _ _ _ _ _ ((forall₂_of_map_eq hbranches hinner).imp ?_)
          exact fun branch branch' ⟨hmem, hbranch⟩ => displacing_sequence hbranch hmem

/-- What matching does by itself is the same for elements at other places. -/
theorem inStep_displacing (options : Options) (listener : Listener σ)
    (h : ∀ name, left.Reaches name → left.GivesAlike right name) :
    (left.setting options listener).InStep (right.setting options listener)
      (displacing left) where
  alike := displacing_alike h
  modifiers := by
    rintro m n ⟨-, hspans⟩
    have hmodifiers : m.modifiers = n.modifiers := by
      rw [← m.modifiers_forgetSpans, hspans, n.modifiers_forgetSpans]
    rw [hmodifiers]
    exact ⟨rfl, rfl, rfl⟩
  enter := by
    rintro track _ name rfl
    exact displacing_refl _
  leave := by
    rintro track _ name rfl
    exact displacing_refl _
  closeRule := by
    rintro track _ rfl
    rfl
  offerHere := by
    rintro track _ failure _ rfl rfl
    rfl
  wentBack := by
    rintro start track _ _ rfl rfl
    exact displacing_refl _
  terminal := by
    rintro modifiers _ span _ pattern _ track _ ⟨-, hspans⟩ rfl
    cases hspans
    exact displacing_refl _
  noAlternative h := congrArg Failure.noAlternative (List.forall₂_eq_eq_eq ▸ h)
  emptyAlternation := rfl
  alreadySet _ := rfl
  undefinedRule _ h := ⟨rfl, h⟩
  recursionLimit h := ⟨rfl, h⟩
  fatalElement hfailure h := ⟨congrArg Failure.message hfailure, h⟩
  emptyRepetition hnode h := ⟨Abort.message_emptyRepetition_eq hnode.2, h⟩
  onlyLeft := by
    rintro room m n taken taken' t after u _ passes _ _ _ rfl _ _ rfl hfurther hnot
    exact absurd hfurther hnot
  onlyRight := by
    rintro room m n taken taken' t after u _ passes _ _ _ rfl _ _ rfl hnot hfurther
    exact absurd hfurther hnot

/-- Runs that come out alike tell the same. -/
theorem outcome_of_displacing {ending ending' : Ending} {t u : Track σ}
    (h : (displacing left).Passages (ending, t) (ending', u)) (requireEnd : Bool) :
    ending.outcome requireEnd t = ending'.outcome requireEnd u ∧ t = u := by
  cases h with
  | matched h =>
      obtain rfl : t = u := h
      exact ⟨rfl, rfl⟩
  | failed hfailure h =>
      rw [show _ = _ from hfailure, show t = u from h]
      exact ⟨rfl, rfl⟩
  | stopped h =>
      obtain ⟨hmessage, rfl⟩ := h
      refine ⟨?_, rfl⟩
      rw [Ending.outcome, Ending.outcome, hmessage]
  | exemptLeft h => exact h.elim
  | exemptRight h => exact h.elim

end Setting

-- ============================================================================
-- Matches by two tables
-- ============================================================================

namespace RuleTable

/-- Let two tables agree on whether line ends matter, and give the same elements, wherever
    these stand, or nothing both, to every name that can be reached from `ROOT`.  Then
    whatever else is in the tables, and in whatever order, and whatever the options, the
    listener, the input and the start are: matches by both tables have the same outcome,
    leave the reader and the listener's memory the same, and tell the same events. -/
theorem only_reached_rules_matter (left right : RuleTable) (options : Options)
    (listener : Listener σ) (reader : Reader) (memory : σ)
    (hlines : left.usesLineEnds = right.usesLineEnds)
    (hrules : ∀ name, left.Reaches name → left.GivesAlike right name) :
    let run := left.matchFrom options listener.recording reader (memory, [])
    let other := right.matchFrom options listener.recording reader (memory, [])
    run.outcome = other.outcome ∧ run.reader = other.reader ∧ run.events = other.events ∧
      left.matchFrom options listener reader memory =
        right.matchFrom options listener reader memory := by
  have hmatch : ∀ {τ : Type} (listener : Listener τ) (memory : τ),
      left.matchFrom options listener reader memory =
        right.matchFrom options listener reader memory := by
    intro τ listener memory
    have hstep := Setting.inStep_displacing options listener hrules
    let start : Track τ := ⟨reader.withSkipLines (!left.usesLineEnds), [], none, memory⟩
    have hpassages := hstep.matchRoot (show start = start from rfl) rfl
      (Setting.displacing_nodes? hrules .root) fun _ _ h => ⟨rfl, h⟩
    rcases hlast : left.lastStep options listener reader memory with ⟨ending, t⟩
    rcases hlast' : right.lastStep options listener reader memory with ⟨ending', u⟩
    rw [lastStep_eq_matchRoot] at hlast hlast'
    rw [hlast, hlines, hlast'] at hpassages
    obtain ⟨houtcome, rfl⟩ := Setting.outcome_of_displacing hpassages options.requireEnd
    rw [← lastStep_eq_matchRoot] at hlast hlast'
    rw [matchFrom_of_lastStep hlast, matchFrom_of_lastStep hlast', houtcome]
  intro run other
  have heq : run = other := hmatch listener.recording (memory, [])
  refine ⟨?_, ?_, ?_, hmatch listener memory⟩
  · rw [heq]
  · rw [heq]
  · rw [heq]

/-- The rules `ROOT := [ item ]*`, `item := ID` and `spare := INTEGER`. -/
def itemsAndSpare : RuleTable where
  rules :=
    [⟨rootName,
      [.alternation { Modifiers.plain with repeated := true } ⟨8, 17⟩
        [[.ref .plain ⟨10, 14⟩ "item"]] false], ⟨0, 17⟩⟩,
     ⟨"item", [.terminal .plain ⟨26, 28⟩ (.ofCategory .identifier)], ⟨18, 28⟩⟩,
     ⟨"spare", [.terminal .plain ⟨38, 45⟩ (.ofCategory .integer)], ⟨29, 45⟩⟩]

/-- The rules `item := ID` and `ROOT := [ item ]*`. -/
def itemBeforeItems : RuleTable where
  rules :=
    [⟨"item", [.terminal .plain ⟨8, 10⟩ (.ofCategory .identifier)], ⟨0, 10⟩⟩,
     ⟨rootName,
      [.alternation { Modifiers.plain with repeated := true } ⟨19, 28⟩
        [[.ref .plain ⟨21, 25⟩ "item"]] false], ⟨11, 28⟩⟩]

/-- What stands in the rules `ROOT` and `item` refers to `item` only, so two words are
    matched without the rule `spare` as they are with it. -/
theorem items_match_without_spare :
    itemsAndSpare.usesLineEnds = itemBeforeItems.usesLineEnds ∧
    (∀ name, itemsAndSpare.Reaches name → itemsAndSpare.GivesAlike itemBeforeItems name) ∧
    (itemBeforeItems.matchFrom .default .acceptAll TokenStream.twoWords.reader ()).outcome =
      .success ∧
    (itemsAndSpare.matchFrom .default .acceptAll TokenStream.twoWords.reader ()).outcome =
      .success := by
  have hlines : itemsAndSpare.usesLineEnds = itemBeforeItems.usesLineEnds := rfl
  have hnames : ∀ name, itemsAndSpare.Reaches name → name = rootName ∨ name = "item" := by
    intro name h
    induction h with
    | root => exact .inl rfl
    | @ref _ target nodes modifiers span _ hnodes hmem ih =>
        rcases ih with rfl | rfl
        · cases hnodes
          simp only [Node.sequenceVisits, Node.visits, Node.branchVisits, List.nil_append,
            List.mem_cons, List.not_mem_nil, or_false, reduceCtorEq, false_or] at hmem
          exact .inr (Node.ref.inj hmem).2.2
        · cases hnodes
          simp only [Node.sequenceVisits, Node.visits, List.nil_append, List.mem_cons,
            List.not_mem_nil, or_false, reduceCtorEq] at hmem
  have hrules : ∀ name, itemsAndSpare.Reaches name →
      itemsAndSpare.GivesAlike itemBeforeItems name := by
    intro name h
    rcases hnames name h with rfl | rfl
    · rfl
    · rfl
  have hmatch : (itemBeforeItems.matchFrom .default .acceptAll TokenStream.twoWords.reader
      ()).outcome = .success := eq_of_map_matchWithin Result.outcome 30 rfl
  refine ⟨hlines, hrules, hmatch, ?_⟩
  rw [(itemsAndSpare.only_reached_rules_matter itemBeforeItems .default .acceptAll
    TokenStream.twoWords.reader () hlines hrules).2.2.2]
  exact hmatch

end RuleTable

end TokenGrammar
