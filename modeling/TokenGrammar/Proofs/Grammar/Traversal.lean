/-
  TokenGrammar.Proofs.Grammar.Traversal

  Looking through the rules misses nothing and repeats nothing.  Every element of a table has
  a place: a rule, and the indices and branches that lead to it (`RuleTable.at?`).  What
  looking through the rules comes past stands at these places, each of them once
  (`RuleTable.enumerates_visits`).

  Looking through the elements of a rule takes a list of pending elements: the last one is
  visited, and what stands directly inside of it becomes pending.  What has been visited, in
  front of what looking through the pending elements comes past, stays the same
  (`Worklist.visits_of_round`), and with every round there is one element less to come past,
  so that the list is empty after as many rounds as there are elements
  (`Worklist.after_eq`).

  Main statement: `RuleTable.visits_miss_nothing`.
-/

import Mathlib.Data.List.Nodup
import Mathlib.Data.List.Perm.Basic
import Mathlib.Data.Option.Basic
import TokenGrammar.Proofs.Grammar.Visits
import TokenGrammar.Proofs.Lexer.ByteOrder

namespace TokenGrammar

-- ============================================================================
-- Lists of what stands at places
-- ============================================================================

variable {α β ι κ : Type}

/-- Whether a list has what stands at all places, and each place once. -/
def Enumerates (at? : ι → Option α) (items : List α) : Prop :=
  ∃ places : List ι, places.Nodup ∧ (∀ place, place ∈ places ↔ (at? place).isSome) ∧
    List.Forall₂ (fun item place => at? place = some item) items places

namespace Enumerates

variable {at? : ι → Option α} {items : List α}

/-- The order does not matter. -/
theorem perm (h : Enumerates at? items) {others : List α} (hperm : others.Perm items) :
    Enumerates at? others := by
  obtain ⟨places, hnodup, hall, hitems⟩ := h
  obtain ⟨others', hothers, hplaces⟩ := List.perm_comp_forall₂ hperm hitems
  exact ⟨others', hplaces.nodup_iff.2 hnodup, fun place => by rw [hplaces.mem_iff, hall], hothers⟩

/-- Places may be named otherwise. -/
theorem rename (h : Enumerates at? items) {other : κ → Option α} (name : ι → κ)
    (hname : Function.Bijective name) (hother : ∀ place, other (name place) = at? place) :
    Enumerates other items := by
  obtain ⟨places, hnodup, hall, hitems⟩ := h
  refine ⟨places.map name, hnodup.map hname.1, fun place => ?_, ?_⟩
  · obtain ⟨place, rfl⟩ := hname.2 place
    rw [List.mem_map_of_injective hname.1, hall, hother]
  · rw [List.forall₂_map_right_iff]
    exact hitems.imp fun item place hplace => (hother place).trans hplace

/-- The list has what stands at some place. -/
theorem mem_iff (h : Enumerates at? items) {item : α} :
    item ∈ items ↔ ∃ place, at? place = some item := by
  obtain ⟨places, -, hall, hitems⟩ := h
  have hsame : places.map at? = items.map some := by
    rw [← List.forall₂_eq_eq_eq, List.forall₂_map_left_iff, List.forall₂_map_right_iff]
    exact hitems.flip
  rw [← List.mem_map_of_injective (Option.some_injective α), ← hsame, List.mem_map]
  refine ⟨fun ⟨place, _, hplace⟩ => ⟨place, hplace⟩, fun ⟨place, hplace⟩ => ⟨place, ?_, hplace⟩⟩
  rw [hall, hplace, Option.isSome_some]

/-- Every item may be changed in the same way. -/
theorem map (h : Enumerates at? items) (change : α → β) :
    Enumerates (fun place => (at? place).map change) (items.map change) := by
  obtain ⟨places, hnodup, hall, hitems⟩ := h
  refine ⟨places, hnodup, fun place => by rw [hall, Option.isSome_map], ?_⟩
  rw [List.forall₂_map_left_iff]
  exact hitems.imp fun item place hplace => congrArg (Option.map change) hplace

/-- One item in front of others, at a place of its own. -/
theorem cons (h : Enumerates at? items) {item : α} {more : Option ι → Option α}
    (hnone : more none = some item) (hsome : ∀ place, more (some place) = at? place) :
    Enumerates more (item :: items) := by
  obtain ⟨places, hnodup, hall, hitems⟩ := h
  refine ⟨none :: places.map some, List.nodup_cons.2 ⟨by simp, ?_⟩, fun place => ?_,
    .cons hnone ?_⟩
  · exact hnodup.map (Option.some_injective ι)
  · cases place with
    | none => simp [hnone]
    | some place => simp [hsome, hall]
  · rw [List.forall₂_map_right_iff]
    exact hitems.imp fun item place hplace => (hsome place).trans hplace

/-- What stands at the places of all parts of a list, part after part. -/
theorem flatMap {parts : List β} {at? : β → ι → Option α} {items : β → List α}
    (h : ∀ part ∈ parts, Enumerates (at? part) (items part)) :
    Enumerates (fun place : Nat × ι => parts[place.1]?.bind (at? · place.2))
      (parts.flatMap items) := by
  induction parts with
  | nil => exact ⟨[], List.nodup_nil, fun place => by simp, .nil⟩
  | cons part parts ih =>
      obtain ⟨hpart, hparts⟩ := List.forall_mem_cons.1 h
      obtain ⟨places, hnodup, hall, hitems⟩ := hpart
      obtain ⟨others, hothersNodup, hothersAll, hothers⟩ := ih hparts
      refine ⟨places.map (0, ·) ++ others.map fun place => (place.1 + 1, place.2), ?_,
        fun ⟨index, place⟩ => ?_, List.rel_append ?_ ?_⟩
      · refine List.Nodup.append (hnodup.map (Prod.mk_right_injective 0)) (hothersNodup.map ?_) ?_
        · rintro ⟨index, place⟩ ⟨index', place'⟩ hsame
          simpa using hsame
        · -- The places of the first part have the index zero, and no others have.
          intro place hfirst hother
          obtain ⟨_, -, rfl⟩ := List.mem_map.1 hfirst
          obtain ⟨_, -, hzero⟩ := List.mem_map.1 hother
          cases hzero
      · cases index with
        | zero => simp [hall]
        | succ index =>
            have hother := hothersAll (index, place)
            simp only [List.getElem?_cons_succ]
            rw [← hother]
            simp
      · rw [List.forall₂_map_right_iff]
        exact hitems.imp fun item place hplace => hplace
      · rw [List.forall₂_map_right_iff]
        exact hothers.imp fun item place hplace => hplace

end Enumerates

-- ============================================================================
-- Places of elements
-- ============================================================================

namespace Node

/-- Where an element stands in a sequence: at an index, or within a branch of the alternation
    at an index. -/
inductive Path where
  | here (index : Nat)
  | inside (index branch : Nat) (rest : Path)
  deriving DecidableEq, Repr

/-- The branches of an alternation.  Other elements have none. -/
def branches : Node → List (List Node)
  | .terminal .. => []
  | .ref .. => []
  | .alternation _ _ branches _ => branches

/-- The element that a path leads to. -/
def at? : Path → List Node → Option Node
  | .here index, nodes => nodes[index]?
  | .inside index branch rest, nodes =>
    nodes[index]?.bind fun node => node.branches[branch]?.bind (at? rest)

/-- The element itself, or the one that a path leads to in one of its branches. -/
def within? (node : Node) : Option (Nat × Path) → Option Node
  | none => some node
  | some (branch, rest) => node.branches[branch]?.bind (at? rest)

/-- A path as an index and the way on from there. -/
def Path.ofIndex : Nat × Option (Nat × Path) → Path
  | (index, none) => .here index
  | (index, some (branch, rest)) => .inside index branch rest

theorem Path.bijective_ofIndex : Function.Bijective Path.ofIndex := by
  constructor
  · rintro ⟨index, _ | ⟨branch, rest⟩⟩ ⟨index', _ | ⟨branch', rest'⟩⟩ hsame <;> cases hsame <;> rfl
  · rintro (index | ⟨index, branch, rest⟩)
    · exact ⟨(index, none), rfl⟩
    · exact ⟨(index, some (branch, rest)), rfl⟩

theorem at?_ofIndex (nodes : List Node) (place : Nat × Option (Nat × Path)) :
    at? (.ofIndex place) nodes = nodes[place.1]?.bind (within? · place.2) := by
  obtain ⟨index, _ | ⟨branch, rest⟩⟩ := place
  · show nodes[index]? = nodes[index]?.bind some
    rw [Option.bind_fun_some]
  · rfl

theorem sequenceVisits_perm (nodes : List Node) :
    (sequenceVisits nodes).Perm (nodes.flatMap visits) := by
  induction nodes with
  | nil => exact .nil
  | cons node rest ih =>
      rw [sequenceVisits, List.flatMap_cons]
      exact (ih.append_right _).trans List.perm_append_comm

theorem branchVisits_perm (branches : List (List Node)) :
    (branchVisits branches).Perm (branches.flatMap sequenceVisits) := by
  induction branches with
  | nil => exact .nil
  | cons branch rest ih =>
      rw [branchVisits, List.flatMap_cons]
      exact (ih.append_right _).trans List.perm_append_comm

/-- Looking through a sequence comes past what its paths lead to, if looking through each of
    its elements does. -/
theorem enumerates_sequenceVisits_of {nodes : List Node}
    (h : ∀ node ∈ nodes, Enumerates node.within? node.visits) :
    Enumerates (at? · nodes) (sequenceVisits nodes) :=
  ((Enumerates.flatMap h).rename Path.ofIndex Path.bijective_ofIndex (at?_ofIndex nodes)).perm
    (sequenceVisits_perm nodes)

/-- Looking through an element comes past the element itself and what paths lead to in its
    branches. -/
theorem enumerates_visits (node : Node) : Enumerates node.within? node.visits := by
  have hempty : Enumerates (fun _ : Nat × Path => (none : Option Node)) [] :=
    ⟨[], List.nodup_nil, fun place => by simp, .nil⟩
  induction node using Node.induction with
  | terminal | ref =>
      rw [visits]
      exact hempty.cons rfl fun place => rfl
  | alternation modifiers span branches onceEach ih =>
      rw [visits]
      refine Enumerates.cons ?_ rfl fun place => rfl
      have hbranches := Enumerates.flatMap fun branch hbranch =>
        enumerates_sequenceVisits_of (ih branch hbranch)
      exact hbranches.perm (branchVisits_perm branches)

/-- Looking through a sequence comes past what its paths lead to. -/
theorem enumerates_sequenceVisits (nodes : List Node) :
    Enumerates (at? · nodes) (sequenceVisits nodes) :=
  enumerates_sequenceVisits_of fun node _ => node.enumerates_visits

end Node

-- ============================================================================
-- Pending elements
-- ============================================================================

/-- The elements that have been visited, and those that are still to be visited with all that
    stands inside of them. -/
structure Worklist where
  visited : List Node
  pending : List Node

namespace Worklist

/-- Nothing has been visited yet. -/
def start (nodes : List Node) : Worklist := ⟨[], nodes⟩

/-- One round, if an element is pending: the last one is visited, and what stands directly
    inside of it becomes pending. -/
def round (work : Worklist) : Option Worklist :=
  work.pending.getLast?.map fun node =>
    ⟨work.visited ++ [node], work.pending.dropLast ++ node.children⟩

/-- What some rounds lead to, if there is an element for each of them. -/
def after : Nat → Worklist → Option Worklist
  | 0, work => some work
  | rounds + 1, work => work.round.bind (after rounds)

/-- What has been visited, and what looking through the pending elements comes past. -/
def visits (work : Worklist) : List Node := work.visited ++ Node.sequenceVisits work.pending

/-- How many elements are still to be visited. -/
def size (work : Worklist) : Nat := (Node.sequenceVisits work.pending).length

variable {work next : Worklist}

theorem sequenceVisits_concat (nodes : List Node) (node : Node) :
    Node.sequenceVisits (nodes ++ [node]) =
      node :: Node.sequenceVisits (nodes ++ node.children) := by
  rw [Node.sequenceVisits_append, Node.sequenceVisits_append, Node.sequenceVisits,
    Node.visits_eq_cons]
  rfl

/-- A round neither loses nor repeats an element, and there is one less to come past. -/
theorem visits_of_round (h : work.round = some next) :
    next.visits = work.visits ∧ work.size = next.size + 1 := by
  obtain ⟨node, hlast, rfl⟩ := Option.map_eq_some_iff.1 h
  obtain ⟨others, hpending⟩ := List.getLast?_eq_some_iff.1 hlast
  rw [visits, visits, size, size, hpending, List.dropLast_concat, sequenceVisits_concat]
  exact ⟨by simp, rfl⟩

theorem pending_eq_nil (h : work.size = 0) : work.pending = [] := by
  rcases List.eq_nil_or_concat' work.pending with hnil | ⟨others, node, hpending⟩
  · exact hnil
  · rw [size, hpending, sequenceVisits_concat] at h
    cases h

/-- There is a round as long as there are elements. -/
theorem exists_round (h : work.size ≠ 0) : ∃ next, work.round = some next := by
  have hpending : work.pending ≠ [] := by
    intro hnil
    rw [size, hnil] at h
    exact h rfl
  exact ⟨_, by rw [round, List.getLast?_eq_some_getLast hpending, Option.map_some]⟩

/-- After as many rounds as there are elements all of them have been visited. -/
theorem after_size (work : Worklist) : work.after work.size = some ⟨work.visits, []⟩ := by
  induction hsize : work.size generalizing work with
  | zero =>
      obtain ⟨visited, pending⟩ := work
      obtain rfl : pending = [] := pending_eq_nil hsize
      rw [after, visits, Node.sequenceVisits, List.append_nil]
  | succ rounds ih =>
      have hsome : work.size ≠ 0 := hsize ▸ Nat.succ_ne_zero rounds
      obtain ⟨next, hnext⟩ := exists_round hsome
      obtain ⟨hvisits, hless⟩ := visits_of_round hnext
      rw [after, hnext, Option.bind_some, ih next (by omega), hvisits]

end Worklist

-- ============================================================================
-- Elements of rules
-- ============================================================================

namespace RuleTable

variable {rules : RuleTable}

/-- What stands at a place of a table: the name of the rule there, and the element that the
    path leads to within it. -/
def at? (rules : RuleTable) (place : RuleId × Node.Path) : Option (String × Node) :=
  (rules.rule? place.1).bind fun rule => (Node.at? place.2 rule.nodes).map (rule.name, ·)

/-- Looking through the rules comes past what stands at the places of the table. -/
theorem enumerates_visits (rules : RuleTable) : Enumerates rules.at? rules.visits := by
  have hplaces := Enumerates.flatMap fun rule (_ : rule ∈ rules.rules) =>
    (Node.enumerates_sequenceVisits rule.nodes).map (rule.name, ·)
  refine hplaces.rename (fun place => (⟨place.1⟩, place.2)) ⟨?_, ?_⟩ fun place => rfl
  · rintro ⟨index, path⟩ ⟨index', path'⟩ hsame
    simpa using hsame
  · rintro ⟨⟨index⟩, path⟩
    exact ⟨(index, path), rfl⟩

theorem mem_visits_iff_at? {visit : String × Node} :
    visit ∈ rules.visits ↔ ∃ place, rules.at? place = some visit :=
  rules.enumerates_visits.mem_iff

theorem namesBefore_iff {a b : String × String} :
    namesBefore a b = true ↔ utf8Bytes a.1 < utf8Bytes b.1 ∨
      a.1 = b.1 ∧ utf8Bytes a.2 < utf8Bytes b.2 := by
  rw [namesBefore, Bool.or_eq_true, Bool.and_eq_true, decide_eq_true_iff, decide_eq_true_iff,
    beq_iff_eq, lt_iff_utf8Bytes_lt, lt_iff_utf8Bytes_lt]

theorem namesBefore_trans (a b c : String × String) (hab : namesBefore a b = true)
    (hbc : namesBefore b c = true) : namesBefore a c = true := by
  simp only [namesBefore, Bool.or_eq_true, Bool.and_eq_true, decide_eq_true_iff,
    beq_iff_eq] at hab hbc ⊢
  rcases hab with hab | ⟨hsame, hab⟩ <;> rcases hbc with hbc | ⟨hsame', hbc⟩
  · exact .inl (String.lt_trans hab hbc)
  · exact .inl (hsame' ▸ hab)
  · exact .inl (hsame ▸ hbc)
  · exact .inr ⟨hsame.trans hsame', String.lt_trans hab hbc⟩

/-- The undefined references stand in the order of the bytes of their names. -/
theorem pairwise_undefinedRefs (rules : RuleTable) :
    rules.undefinedRefs.Pairwise fun a b => utf8Bytes a.1 < utf8Bytes b.1 ∨
      a.1 = b.1 ∧ utf8Bytes a.2 < utf8Bytes b.2 :=
  (pairwise_sorted separates_namesBefore namesBefore_trans _).imp namesBefore_iff.1

theorem usesLineEnds_iff : rules.usesLineEnds = true ↔ ∃ place name modifiers span,
    rules.at? place = some (name, .terminal modifiers span (.ofCategory .endOfLine)) := by
  rw [usesLineEnds, List.any_eq_true]
  constructor
  · rintro ⟨⟨name, node⟩, hmem, hnode⟩
    obtain ⟨place, hplace⟩ := mem_visits_iff_at?.1 hmem
    dsimp only at hnode
    split at hnode
    · exact ⟨place, name, _, _, hplace⟩
    · cases hnode
  · rintro ⟨place, name, modifiers, span, hplace⟩
    exact ⟨_, mem_visits_iff_at?.2 ⟨place, hplace⟩, rfl⟩

/-- Looking through the rules misses nothing.  A list of pending elements is used up after as
    many rounds as there are elements in a rule, which have then been visited in this order.
    What is come past stands at the places of the table, however deep, each place once, and
    each element comes with the name of its rule.

    So the undefined references are the references at all places whose target is the name of
    no rule, in the order of their bytes and each once, and line ends are asked for if that is
    done at some place. -/
theorem visits_miss_nothing (rules : RuleTable) :
    (∀ rule ∈ rules.rules, ∃ rounds visited,
      (Worklist.start rule.nodes).after rounds = some ⟨visited, []⟩ ∧
      visited = Node.sequenceVisits rule.nodes ∧ visited.length = rounds) ∧
    (∃ places : List (RuleId × Node.Path), places.Nodup ∧
      (∀ place, place ∈ places ↔ (rules.at? place).isSome) ∧
      List.Forall₂ (fun visit place => rules.at? place = some visit) rules.visits places) ∧
    rules.undefinedRefs.Pairwise (fun a b => utf8Bytes a.1 < utf8Bytes b.1 ∨
      a.1 = b.1 ∧ utf8Bytes a.2 < utf8Bytes b.2) ∧
    (∀ name target, (name, target) ∈ rules.undefinedRefs ↔
      (∃ place modifiers span, rules.at? place = some (name, .ref modifiers span target)) ∧
        ∀ rule ∈ rules.rules, rule.name ≠ target) ∧
    (rules.usesLineEnds = true ↔ ∃ place name modifiers span,
      rules.at? place = some (name, .terminal modifiers span (.ofCategory .endOfLine))) := by
  refine ⟨fun rule _ => ?_, rules.enumerates_visits, rules.pairwise_undefinedRefs,
    fun name target => ?_, usesLineEnds_iff⟩
  · exact ⟨_, _, (Worklist.start rule.nodes).after_size, List.nil_append _, rfl⟩
  · have hcontains : rules.contains target = false ↔ ∀ rule ∈ rules.rules, rule.name ≠ target := by
      simp [contains]
    rw [mem_undefinedRefs, hcontains]
    refine and_congr_left fun _ => ⟨?_, ?_⟩
    · rintro ⟨modifiers, span, hmem⟩
      obtain ⟨place, hplace⟩ := mem_visits_iff_at?.1 hmem
      exact ⟨place, modifiers, span, hplace⟩
    · rintro ⟨place, modifiers, span, hplace⟩
      exact ⟨modifiers, span, mem_visits_iff_at?.2 ⟨place, hplace⟩⟩

end RuleTable

end TokenGrammar
