/-
  TokenGrammar.Proofs.Grammar.Pieces

  A printed grammar is a row of words, signs, literals, blanks and line ends.  Which
  they are does not depend on where the elements of the grammar stood.

  Main statements: `RuleTable.toList_shown`, and `RuleTable.literals_eq`, by which the
  literals of a grammar are those among its pieces.
-/

import TokenGrammar.Proofs.Grammar.SourceLexer

namespace TokenGrammar

-- ============================================================================
-- Pieces
-- ============================================================================

/-- What printed grammars are made of. -/
inductive Piece where
  | word (text : String)
  | sign (text : String)
  | literal (text : String)
  | blank
  | lineEnd
  deriving DecidableEq, Repr

namespace Piece

/-- How a piece is printed. -/
def chars : Piece → List Char
  | .word text => text.toList
  | .sign text => text.toList
  | .literal text => quoteOf text :: (text.toList ++ [quoteOf text])
  | .blank => [' ']
  | .lineEnd => ['\n']

/-- The text of a literal. -/
def literal? : Piece → Option String
  | .literal text => some text
  | _ => none

end Piece

/-- The piece that a terminal is. -/
def Terminal.piece : Terminal → Piece
  | .literal text => .literal text
  | .ofCategory category => .word category.tag

/-- The piece that a suffix is. -/
def Suffix.piece (suffix : Suffix) : Piece := .sign (String.singleton suffix.sign)

namespace Modifiers

/-- What is printed before an element. -/
def piecesBefore (modifiers : Modifiers) : List Piece :=
  if modifiers.adjacent then [.sign "~"] else []

/-- The suffixes of an element in the order in which they are printed. -/
def suffixes (modifiers : Modifiers) (onceEach : Bool) : List Suffix :=
  (if onceEach then [.onceEach] else []) ++ (if modifiers.optional then [.optional] else []) ++
    (if modifiers.repeated then [.repeated] else []) ++ (if modifiers.fatal then [.fatal] else [])

end Modifiers

namespace Node

mutual

/-- The pieces of an element. -/
def pieces : Node → List Piece
  | .terminal modifiers _ pattern =>
    modifiers.piecesBefore ++ [pattern.piece] ++ (modifiers.suffixes false).map Suffix.piece
  | .ref modifiers _ rule =>
    modifiers.piecesBefore ++ [.word rule] ++ (modifiers.suffixes false).map Suffix.piece
  | .alternation modifiers _ branches onceEach =>
    modifiers.piecesBefore ++
      ([.sign "[", .blank] ++ [.blank, .sign "|", .blank].intercalate (piecesOfBranches branches) ++
        [.blank, .sign "]"]) ++
      (modifiers.suffixes onceEach).map Suffix.piece

/-- The pieces of each element of a sequence. -/
def piecesOfElements : List Node → List (List Piece)
  | [] => []
  | node :: rest => node.pieces :: piecesOfElements rest

/-- The pieces of each branch of an alternation. -/
def piecesOfBranches : List (List Node) → List (List Piece)
  | [] => []
  | branch :: rest => [.blank].intercalate (piecesOfElements branch) :: piecesOfBranches rest

end

/-- The pieces of a sequence of elements. -/
def sequencePieces (nodes : List Node) : List Piece := [.blank].intercalate (nodes.map pieces)

/-- The pieces of the branches of an alternation. -/
def branchPieces (branches : List (List Node)) : List Piece :=
  [.blank, .sign "|", .blank].intercalate (branches.map sequencePieces)

theorem piecesOfElements_eq_map (nodes : List Node) : piecesOfElements nodes = nodes.map pieces := by
  induction nodes with
  | nil => rfl
  | cons node rest ih => rw [piecesOfElements, ih, List.map_cons]

theorem piecesOfBranches_eq_map (branches : List (List Node)) :
    piecesOfBranches branches = branches.map sequencePieces := by
  induction branches with
  | nil => rfl
  | cons branch rest ih =>
      rw [piecesOfBranches, ih, piecesOfElements_eq_map, List.map_cons, sequencePieces]

theorem pieces_alternation (modifiers : Modifiers) (span : Span) (branches : List (List Node))
    (onceEach : Bool) :
    (alternation modifiers span branches onceEach).pieces = modifiers.piecesBefore ++
      ([.sign "[", .blank] ++ branchPieces branches ++ [.blank, .sign "]"]) ++
      (modifiers.suffixes onceEach).map Suffix.piece := by
  rw [pieces, piecesOfBranches_eq_map, branchPieces]

end Node

-- ============================================================================
-- Separated rows
-- ============================================================================

theorem flatMap_intercalate {α β : Type} (f : α → List β) (separator : List α)
    (rows : List (List α)) :
    (separator.intercalate rows).flatMap f =
      (separator.flatMap f).intercalate (rows.map (·.flatMap f)) := by
  induction rows with
  | nil => rfl
  | cons row rest ih =>
      cases rest with
      | nil => simp
      | cons next rest =>
          rw [List.intercalate_cons_cons, List.flatMap_append, List.flatMap_append, ih]
          simp

theorem intercalate_concat {α : Type} (separator : List α) {rows : List (List α)} (h : rows ≠ [])
    (last : List α) :
    separator.intercalate (rows ++ [last]) = separator.intercalate rows ++ separator ++ last := by
  induction rows with
  | nil => exact absurd rfl h
  | cons row rest ih =>
      cases rest with
      | nil => simp
      | cons next rest =>
          have hrest := ih (List.cons_ne_nil next rest)
          rw [List.cons_append] at hrest ⊢
          rw [List.cons_append, List.intercalate_cons_cons, hrest, List.intercalate_cons_cons]
          simp only [List.append_assoc]

namespace Node

theorem sequencePieces_singleton (node : Node) : sequencePieces [node] = node.pieces :=
  List.intercalate_singleton

theorem sequencePieces_concat {nodes : List Node} (h : nodes ≠ []) (node : Node) :
    sequencePieces (nodes ++ [node]) = sequencePieces nodes ++ [.blank] ++ node.pieces := by
  have hrows : nodes.map pieces ≠ [] := by simpa using h
  rw [sequencePieces, List.map_append]
  exact intercalate_concat _ hrows _

theorem branchPieces_singleton (branch : List Node) :
    branchPieces [branch] = sequencePieces branch :=
  List.intercalate_singleton

theorem branchPieces_concat {branches : List (List Node)} (h : branches ≠ []) (branch : List Node) :
    branchPieces (branches ++ [branch]) =
      branchPieces branches ++ [.blank, .sign "|", .blank] ++ sequencePieces branch := by
  have hrows : branches.map sequencePieces ≠ [] := by simpa using h
  rw [branchPieces, List.map_append]
  exact intercalate_concat _ hrows _

end Node

-- ============================================================================
-- Printing
-- ============================================================================

theorem Terminal.chars_piece (pattern : Terminal) : pattern.piece.chars = pattern.shown.toList := by
  cases pattern with
  | literal text => exact (toList_shown_literal text).symm
  | ofCategory category => rfl

namespace Modifiers

theorem flatMap_piecesBefore (modifiers : Modifiers) :
    modifiers.piecesBefore.flatMap Piece.chars = modifiers.before.toList := by
  rw [piecesBefore, before]
  cases modifiers.adjacent <;> decide

theorem flatMap_suffixes (modifiers : Modifiers) (onceEach : Bool) :
    ((modifiers.suffixes onceEach).map Suffix.piece).flatMap Piece.chars =
      (if onceEach then ['$'] else []) ++ modifiers.behind.toList := by
  obtain ⟨adjacent, optional, repeated, fatal⟩ := modifiers
  revert adjacent optional repeated fatal onceEach
  decide

end Modifiers

namespace Node

theorem shownBranches_eq_map (branches : List (List Node)) :
    shownBranches branches = branches.map fun branch => " ".intercalate (branch.map shown) := by
  induction branches with
  | nil => rfl
  | cons branch rest ih => rw [shownBranches, ih, shownElements_eq_map, List.map_cons]

theorem toList_shown_sequence {nodes : List Node}
    (h : ∀ node ∈ nodes, node.shown.toList = node.pieces.flatMap Piece.chars) :
    (" ".intercalate (nodes.map shown)).toList = (sequencePieces nodes).flatMap Piece.chars := by
  rw [sequencePieces, flatMap_intercalate, String.toList_intercalate, List.map_map, List.map_map]
  congr 1
  exact List.map_congr_left h

/-- An element is printed as its pieces. -/
theorem toList_shown (node : Node) : node.shown.toList = node.pieces.flatMap Piece.chars := by
  induction node using Node.induction with
  | terminal modifiers span pattern =>
      simp only [shown, pieces, String.toList_append, List.flatMap_append,
        modifiers.flatMap_piecesBefore, modifiers.flatMap_suffixes, List.flatMap_singleton,
        pattern.chars_piece]
      rfl
  | ref modifiers span rule =>
      simp only [shown, pieces, String.toList_append, List.flatMap_append,
        modifiers.flatMap_piecesBefore, modifiers.flatMap_suffixes, List.flatMap_singleton]
      rfl
  | alternation modifiers span branches onceEach ih =>
      have hbranches : (" | ".intercalate (shownBranches branches)).toList =
          (branchPieces branches).flatMap Piece.chars := by
        rw [branchPieces, flatMap_intercalate, String.toList_intercalate, shownBranches_eq_map,
          List.map_map, List.map_map]
        congr 1
        exact List.map_congr_left fun branch hbranch => toList_shown_sequence (ih branch hbranch)
      have honce : (if onceEach then "$" else "").toList = if onceEach then ['$'] else [] := by
        cases onceEach <;> rfl
      simp only [shown, pieces_alternation, String.toList_append, List.flatMap_append,
        modifiers.flatMap_piecesBefore, modifiers.flatMap_suffixes, hbranches, honce]
      simp [Piece.chars]

end Node

/-- The pieces of a rule and of the line end behind it. -/
def Rule.pieces (rule : Rule) : List Piece :=
  [.word rule.name, .blank, .sign ":=", .blank] ++ Node.sequencePieces rule.nodes ++ [.lineEnd]

/-- Rules are printed as their pieces. -/
theorem RuleTable.toList_shown (table : RuleTable) :
    table.shown.toList = (table.rules.flatMap Rule.pieces).flatMap Piece.chars := by
  rw [shown, String.toList_join, List.flatMap_map, List.flatMap_assoc]
  congr 1
  funext rule
  have hnodes := Node.toList_shown_sequence fun node (_ : node ∈ rule.nodes) => node.toList_shown
  simp only [String.toList_append, hnodes, Rule.pieces, List.flatMap_append]
  simp [Piece.chars]

-- ============================================================================
-- Places of elements
-- ============================================================================

namespace Node

mutual

/-- The element without what is known about where it and the elements inside it stood. -/
def forgetSpans : Node → Node
  | .terminal modifiers _ pattern => .terminal modifiers ⟨0, 0⟩ pattern
  | .ref modifiers _ rule => .ref modifiers ⟨0, 0⟩ rule
  | .alternation modifiers _ branches onceEach =>
    .alternation modifiers ⟨0, 0⟩ (forgetSpansOfBranches branches) onceEach

/-- The elements of a sequence, likewise. -/
def forgetSpansOfElements : List Node → List Node
  | [] => []
  | node :: rest => node.forgetSpans :: forgetSpansOfElements rest

/-- The branches of an alternation, likewise. -/
def forgetSpansOfBranches : List (List Node) → List (List Node)
  | [] => []
  | branch :: rest => forgetSpansOfElements branch :: forgetSpansOfBranches rest

end

theorem forgetSpansOfElements_eq_map (nodes : List Node) :
    forgetSpansOfElements nodes = nodes.map forgetSpans := by
  induction nodes with
  | nil => rfl
  | cons node rest ih => rw [forgetSpansOfElements, ih, List.map_cons]

theorem forgetSpansOfBranches_eq_map (branches : List (List Node)) :
    forgetSpansOfBranches branches = branches.map (·.map forgetSpans) := by
  induction branches with
  | nil => rfl
  | cons branch rest ih =>
      rw [forgetSpansOfBranches, ih, forgetSpansOfElements_eq_map, List.map_cons]

theorem pieces_forgetSpans (node : Node) : node.forgetSpans.pieces = node.pieces := by
  induction node using Node.induction with
  | terminal => rfl
  | ref => rfl
  | alternation modifiers span branches onceEach ih =>
      have hbranches : branchPieces (branches.map (·.map forgetSpans)) = branchPieces branches := by
        rw [branchPieces, branchPieces, List.map_map]
        congr 1
        apply List.map_congr_left
        intro branch hbranch
        rw [Function.comp_apply, sequencePieces, sequencePieces, List.map_map]
        congr 1
        exact List.map_congr_left (ih branch hbranch)
      rw [forgetSpans, pieces_alternation, pieces_alternation, forgetSpansOfBranches_eq_map,
        hbranches]

theorem sequencePieces_forgetSpans (nodes : List Node) :
    sequencePieces (nodes.map forgetSpans) = sequencePieces nodes := by
  rw [sequencePieces, sequencePieces, List.map_map]
  congr 1
  exact List.map_congr_left fun node _ => node.pieces_forgetSpans

end Node

/-- The rule without what is known about where it and its elements stood. -/
def Rule.forgetSpans (rule : Rule) : Rule :=
  ⟨rule.name, rule.nodes.map Node.forgetSpans, ⟨0, 0⟩⟩

theorem Rule.pieces_forgetSpans (rule : Rule) : rule.forgetSpans.pieces = rule.pieces := by
  rw [pieces, pieces, forgetSpans, Node.sequencePieces_forgetSpans]

/-- Rules that differ in their places only are made of the same pieces. -/
theorem Rule.pieces_of_forgetSpans_eq {rules again : List Rule}
    (h : again.map Rule.forgetSpans = rules.map Rule.forgetSpans) :
    again.flatMap Rule.pieces = rules.flatMap Rule.pieces := by
  have hforget : ∀ rules : List Rule,
      rules.flatMap Rule.pieces = (rules.map Rule.forgetSpans).flatMap Rule.pieces := by
    intro rules
    rw [List.flatMap_map]
    congr 1
    funext rule
    exact rule.pieces_forgetSpans.symm
  rw [hforget again, hforget rules, h]

-- ============================================================================
-- Literals
-- ============================================================================

theorem filterMap_intercalate {α β : Type} {f : α → Option β} {separator : List α}
    (h : separator.filterMap f = []) (rows : List (List α)) :
    (separator.intercalate rows).filterMap f = rows.flatMap (·.filterMap f) := by
  induction rows with
  | nil => rfl
  | cons row rest ih =>
      cases rest with
      | nil => simp
      | cons next rest =>
          rw [List.intercalate_cons_cons, List.filterMap_append, List.filterMap_append, h, ih]
          simp

namespace Node

/-- The text of a literal. -/
def literal? : Node → Option String
  | .terminal _ _ (.literal text) => some text
  | _ => none

theorem literals_sequencePieces (nodes : List Node) :
    (sequencePieces nodes).filterMap Piece.literal? =
      nodes.flatMap fun node => node.pieces.filterMap Piece.literal? := by
  rw [sequencePieces, filterMap_intercalate rfl, List.flatMap_map]

theorem literals_branchPieces (branches : List (List Node)) :
    (branchPieces branches).filterMap Piece.literal? =
      branches.flatten.flatMap fun node => node.pieces.filterMap Piece.literal? := by
  rw [branchPieces, filterMap_intercalate rfl, List.flatMap_map, List.flatten_eq_flatMap,
    List.flatMap_assoc]
  congr 1
  funext branch
  exact literals_sequencePieces branch

/-- Around what an element is made of there are no literals. -/
theorem literals_pieces_around (modifiers : Modifiers) (onceEach : Bool) (inner : List Piece) :
    (modifiers.piecesBefore ++ inner ++
      (modifiers.suffixes onceEach).map Suffix.piece).filterMap Piece.literal? =
    inner.filterMap Piece.literal? := by
  have hbefore : modifiers.piecesBefore.filterMap Piece.literal? = [] := by
    rw [Modifiers.piecesBefore]
    split
    · rfl
    · rfl
  have hbehind : ∀ suffixes : List Suffix,
      (suffixes.map Suffix.piece).filterMap Piece.literal? = [] := by
    intro suffixes
    rw [List.filterMap_map, List.filterMap_eq_nil_iff]
    exact fun _ _ => rfl
  rw [List.filterMap_append, List.filterMap_append, hbefore, hbehind, List.nil_append,
    List.append_nil]

theorem literals_sequenceVisits {nodes : List Node}
    (h : ∀ node ∈ nodes,
      node.visits.filterMap literal? = (node.pieces.filterMap Piece.literal?).reverse) :
    (sequenceVisits nodes).filterMap literal? =
      (nodes.flatMap fun node => node.pieces.filterMap Piece.literal?).reverse := by
  induction nodes with
  | nil => rfl
  | cons node rest ih =>
      obtain ⟨hnode, hrest⟩ := List.forall_mem_cons.1 h
      rw [sequenceVisits, List.filterMap_append, ih hrest, hnode, List.flatMap_cons,
        List.reverse_append]

/-- The literals within an element, from the last one back, are those of its pieces. -/
theorem literals_visits (node : Node) :
    node.visits.filterMap literal? = (node.pieces.filterMap Piece.literal?).reverse := by
  induction node using Node.induction with
  | terminal modifiers span pattern =>
      rw [pieces, literals_pieces_around]
      cases pattern <;> rfl
  | ref modifiers span rule =>
      rw [pieces, literals_pieces_around]
      rfl
  | alternation modifiers span branches onceEach ih =>
      have hinner : ∀ node ∈ branches.flatten,
          node.visits.filterMap literal? = (node.pieces.filterMap Piece.literal?).reverse := by
        intro node hnode
        obtain ⟨branch, hbranch, hmem⟩ := List.mem_flatten.1 hnode
        exact ih branch hbranch node hmem
      rw [pieces_alternation, literals_pieces_around, List.filterMap_append, List.filterMap_append,
        literals_branchPieces, visits_eq_cons, children]
      simp only [List.filterMap_cons, literal?, literals_sequenceVisits hinner]
      simp [Piece.literal?]

end Node

/-- The literals of a rule, in the order in which they are printed. -/
def Rule.literals (rule : Rule) : List String := rule.pieces.filterMap Piece.literal?

/-- The literals of a grammar, from the last one of each rule back. -/
theorem RuleTable.literals_eq (table : RuleTable) :
    table.literals = table.rules.flatMap fun rule => rule.literals.reverse := by
  show table.visits.filterMap (Node.literal? ∘ Prod.snd) = _
  rw [visits, List.filterMap_flatMap]
  congr 1
  funext rule
  have hnodes := Node.literals_sequenceVisits fun node (_ : node ∈ rule.nodes) =>
    node.literals_visits
  rw [← Node.literals_sequencePieces] at hnodes
  rw [List.filterMap_map, Rule.literals, Rule.pieces, List.filterMap_append, List.filterMap_append]
  simp only [List.filterMap_cons, Piece.literal?, List.filterMap_nil, List.nil_append,
    List.append_nil]
  exact hnodes

theorem RuleTable.literals_of_forgetSpans_eq {table again : RuleTable}
    (h : again.rules.map Rule.forgetSpans = table.rules.map Rule.forgetSpans) :
    again.literals = table.literals := by
  have hforget : ∀ table : RuleTable, table.literals =
      (table.rules.map Rule.forgetSpans).flatMap fun rule => rule.literals.reverse := by
    intro table
    rw [table.literals_eq, List.flatMap_map]
    congr 1
    funext rule
    rw [Rule.literals, Rule.literals, rule.pieces_forgetSpans]
  rw [hforget again, hforget table, h]

theorem RuleTable.mem_literals_iff {table : RuleTable} {text : String} :
    text ∈ table.literals ↔ Piece.literal text ∈ table.rules.flatMap Rule.pieces := by
  have hpiece : ∀ piece : Piece, piece.literal? = some text ↔ piece = .literal text := by
    intro piece
    cases piece <;> simp [Piece.literal?]
  rw [table.literals_eq]
  simp only [List.mem_flatMap, List.mem_reverse, Rule.literals, List.mem_filterMap, hpiece,
    exists_eq_right]

end TokenGrammar
