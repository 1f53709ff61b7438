/-
  TokenGrammar.Proofs.Match.Unmarked

  Alternations whose branches may be taken only once, but that are not repeated.  Nothing
  has been taken of an alternation before its first pass, and one that does not repeat has
  no second one; so the mark says nothing about it.

  Main statement: a run of rules without these marks ends as one of the rules themselves
  does, and leaves the same track (`RuleTable.lastStep_unmarked`).
-/

import TokenGrammar.Proofs.Grammar.Visits
import TokenGrammar.Proofs.Match.Return

namespace TokenGrammar

-- ============================================================================
-- Rules with fewer marks
-- ============================================================================

namespace Node

mutual

/-- The same element, where no alternation that does not repeat is marked as one whose
    branches may be taken only once. -/
def unmarked : Node → Node
  | .terminal modifiers span pattern => .terminal modifiers span pattern
  | .ref modifiers span rule => .ref modifiers span rule
  | .alternation modifiers span branches onceEach =>
    .alternation modifiers span (unmarkedBranches branches) (onceEach && modifiers.repeated)

/-- The elements of a sequence likewise. -/
def unmarkedElements : List Node → List Node
  | [] => []
  | node :: rest => node.unmarked :: unmarkedElements rest

/-- The branches of an alternation likewise. -/
def unmarkedBranches : List (List Node) → List (List Node)
  | [] => []
  | branch :: rest => unmarkedElements branch :: unmarkedBranches rest

end

theorem unmarkedElements_eq_map (nodes : List Node) :
    unmarkedElements nodes = nodes.map unmarked := by
  induction nodes with
  | nil => rfl
  | cons node rest ih => rw [unmarkedElements, ih, List.map_cons]

theorem unmarkedBranches_eq_map (branches : List (List Node)) :
    unmarkedBranches branches = branches.map (·.map unmarked) := by
  induction branches with
  | nil => rfl
  | cons branch rest ih => rw [unmarkedBranches, ih, unmarkedElements_eq_map, List.map_cons]

@[simp] theorem modifiers_unmarked (node : Node) : node.unmarked.modifiers = node.modifiers := by
  cases node <;> rfl

theorem children_unmarked (node : Node) : node.unmarked.children = node.children.map unmarked := by
  cases node with
  | terminal | ref => rfl
  | alternation modifiers span branches onceEach =>
      rw [unmarked, children, unmarkedBranches_eq_map, children, List.map_flatten]

end Node

namespace RuleTable

/-- The same rules with fewer marks. -/
def unmarked (rules : RuleTable) : RuleTable := rules.mapNodes Node.unmarked

theorem nodes?_unmarked (rules : RuleTable) (name : String) :
    rules.unmarked.nodes? name = (rules.nodes? name).map (·.map Node.unmarked) :=
  rules.nodes?_mapNodes name

/-- Rules with fewer marks ask for line ends where the rules do. -/
theorem usesLineEnds_unmarked (rules : RuleTable) :
    rules.unmarked.usesLineEnds = rules.usesLineEnds := by
  rw [usesLineEnds, usesLineEnds, unmarked, rules.visits_mapNodes Node.children_unmarked,
    List.any_map]
  congr 1
  funext visit
  obtain ⟨name, node⟩ := visit
  cases node <;> rfl

end RuleTable

-- ============================================================================
-- Passages
-- ============================================================================

/-- The same reason, where it names an element with fewer marks. -/
def Abort.unmarked : Abort → Abort
  | .emptyRepetition node => .emptyRepetition node.unmarked
  | abort => abort

/-- The same ending, where it names an element with fewer marks. -/
def Ending.unmarked : Ending → Ending
  | .aborted abort => .aborted abort.unmarked
  | ending => ending

variable {σ : Type}

/-- The same passage, where its ending names an element with fewer marks. -/
def Passage.unmarked (passage : Passage σ) : Passage σ := (passage.1.unmarked, passage.2)

/-- What is matched of rules with fewer marks. -/
def Setting.unmarked (setting : Setting σ) : Setting σ :=
  { setting with rules := setting.rules.unmarked }

namespace Setting

variable {setting : Setting σ}

@[simp] theorem listener_unmarked : setting.unmarked.listener = setting.listener := rfl

theorem unmarked_failAt (checkpoint : Checkpoint) (failure : Failure) (track : Track σ) :
    (setting.failAt checkpoint failure track).unmarked =
      setting.failAt checkpoint failure track := by
  unfold failAt putBack
  rcases track.rewind setting.listener checkpoint with ⟨_ | refusal, back⟩ <;> rfl

theorem unmarked_matchTerminal (adjacent : Bool) (pattern : Terminal) (track : Track σ) :
    (setting.matchTerminal adjacent pattern track).unmarked =
      setting.matchTerminal adjacent pattern track := by
  unfold matchTerminal
  split
  · rfl
  · next matched reader _ =>
    unfold tell
    rcases (track.withReader reader).emit setting.listener (.token matched) with
      ⟨_ | refusal | refusal, told⟩
    · rfl
    · exact unmarked_failAt _ _ _
    · rfl

theorem leaveRule_unmarked (name : String) (entry : Checkpoint) (passage : Passage σ) :
    setting.leaveRule name entry passage.unmarked =
      (setting.leaveRule name entry passage).unmarked := by
  rcases passage with ⟨_ | failure | abort, track⟩
  · show setting.leaveRule name entry (.matched, track) =
      (setting.leaveRule name entry (.matched, track)).unmarked
    simp only [leaveRule, tell]
    rcases track.emit setting.listener (.leave name) with ⟨_ | refusal | refusal, told⟩
    · rfl
    · exact (unmarked_failAt _ _ _).symm
    · rfl
  · exact (unmarked_failAt _ _ _).symm
  · rfl

theorem matchRule_unmarked {body body' : Track σ → Passage σ}
    (hbody : ∀ track, body' track = (body track).unmarked) (name : String) (track : Track σ) :
    setting.matchRule name body' track = (setting.matchRule name body track).unmarked := by
  have hclose (passage : Passage σ) :
      passage.unmarked.closeRule = passage.closeRule.unmarked := by
    rcases passage with ⟨_ | failure | abort, track⟩ <;> rfl
  unfold matchRule
  dsimp only
  rw [← hclose]
  congr 1
  unfold tell
  rcases (track.openRule name).emit setting.listener (.enter name) with
    ⟨_ | refusal | refusal, told⟩
  · dsimp only
    rw [hbody, leaveRule_unmarked]
  · exact (unmarked_failAt _ _ _).symm
  · rfl

theorem matchBranches_unmarked {body body' : List Node → Track σ → Passage σ}
    (hbody : ∀ nodes track, body' (nodes.map Node.unmarked) track = (body nodes track).unmarked)
    (entry : Checkpoint) (failed : List Failure) (branches : List (List Node))
    (track : Track σ) :
    setting.unmarked.matchBranches entry body' failed (branches.map (·.map Node.unmarked)) track =
      ((setting.matchBranches entry body failed branches track).1.unmarked,
        (setting.matchBranches entry body failed branches track).2) := by
  induction branches generalizing failed track with
  | nil => rfl
  | cons branch later ih =>
      rw [List.map_cons, matchBranches, matchBranches, hbody]
      rcases body branch track with ⟨_ | failure | abort, after⟩
      · rfl
      · simp only [Passage.unmarked, Ending.unmarked, listener_unmarked]
        rcases after.rewind setting.listener entry with ⟨_ | refusal, back⟩
        · exact ih _ _
        · rfl
      · rfl

/-- Nothing has been taken of an alternation before its first pass, so it does not matter
    whether its branches may be taken more than once. -/
theorem takeBranch_nil (entry : Checkpoint) (onceEach : Bool) (result : Passage σ × Nat) :
    (setting.takeBranch entry onceEach [] result).1 = result.1 := by
  obtain ⟨⟨_ | failure | abort, track⟩, index⟩ := result
  · cases onceEach <;> rfl
  · rfl
  · rfl

theorem takeBranch_unmarked (entry : Checkpoint) (onceEach : Bool) (taken : List Nat)
    (passage : Passage σ) (index : Nat) :
    setting.takeBranch entry onceEach taken (passage.unmarked, index) =
      ((setting.takeBranch entry onceEach taken (passage, index)).1.unmarked,
        (setting.takeBranch entry onceEach taken (passage, index)).2) := by
  rcases passage with ⟨_ | failure | abort, track⟩
  · cases onceEach with
    | false => rfl
    | true =>
        simp only [Passage.unmarked, Ending.unmarked, takeBranch, if_true]
        cases taken.contains index with
        | false => rfl
        | true =>
            simp only [if_true, putBack]
            rcases track.rewind setting.listener entry with ⟨_ | refusal, back⟩ <;> rfl
  · rfl
  · rfl

-- ============================================================================
-- Elements
-- ============================================================================

/-- Whether an attempt at an element with fewer marks comes out as one at the element
    itself does: with the same branches taken, if there may be another attempt. -/
def AgreesUnmarked (node : Node) (attempt attempt' : List Nat → Track σ → Attempt σ) : Prop :=
  ∀ taken track, taken = [] ∨ node.modifiers.repeated = true →
    (attempt' taken track).1 = (attempt taken track).1.unmarked ∧
    (node.modifiers.repeated = true → (attempt' taken track).2 = (attempt taken track).2)

theorem matchElement_unmarked {node : Node} {attempt attempt' : List Nat → Track σ → Attempt σ}
    (h : AgreesUnmarked node attempt attempt') (passes : Nat) {taken : List Nat}
    (htaken : taken = [] ∨ node.modifiers.repeated = true) (track : Track σ) :
    matchElement attempt' node.unmarked passes taken track =
      (matchElement attempt node passes taken track).unmarked := by
  obtain ⟨hpassage, hbranches⟩ := h taken track htaken
  rw [matchElement, matchElement, Node.modifiers_unmarked]
  rcases hattempt : attempt taken track with ⟨⟨_ | failure | abort, after⟩, more⟩
  all_goals
    rcases hattempt' : attempt' taken track with ⟨passage', more'⟩
    rw [hattempt, hattempt'] at hpassage hbranches
    subst hpassage
  · simp only [Passage.unmarked, Ending.unmarked]
    split
    · next hrepeated =>
      split
      · next hfewer =>
        rw [show more' = more from hbranches hrepeated]
        exact matchElement_unmarked h (passes + 1) (.inr hrepeated) after
      · rfl
    · rfl
  · simp only [Passage.unmarked, Ending.unmarked]
    split
    · rfl
    · split <;> rfl
  · rfl
termination_by track.reader.remaining

theorem matchSequence_unmarked {attempt attempt' : Node → List Nat → Track σ → Attempt σ}
    (h : ∀ node, AgreesUnmarked node (attempt node) (attempt' node.unmarked))
    (nodes : List Node) (track : Track σ) :
    matchSequence attempt' (nodes.map Node.unmarked) track =
      (matchSequence attempt nodes track).unmarked := by
  induction nodes generalizing track with
  | nil => rfl
  | cons node rest ih =>
      rw [List.map_cons, matchSequence, matchSequence,
        matchElement_unmarked (h node) 0 (.inl rfl)]
      rcases matchElement (attempt node) node 0 [] track with ⟨_ | failure | abort, after⟩
      · exact ih after
      · rfl
      · rfl

/-- An alternation with fewer marks is marked if it repeats and the alternation is. -/
theorem takeBranch_agrees (entry : Checkpoint) (onceEach repeated : Bool) {taken : List Nat}
    (htaken : taken = [] ∨ repeated = true) (passage : Passage σ) (index : Nat) :
    (setting.takeBranch entry (onceEach && repeated) taken (passage.unmarked, index)).1 =
        (setting.takeBranch entry onceEach taken (passage, index)).1.unmarked ∧
      (repeated = true →
        (setting.takeBranch entry (onceEach && repeated) taken (passage.unmarked, index)).2 =
          (setting.takeBranch entry onceEach taken (passage, index)).2) := by
  cases repeated with
  | true =>
      rw [Bool.and_true, takeBranch_unmarked]
      exact ⟨rfl, fun _ => rfl⟩
  | false =>
      obtain rfl := htaken.resolve_right Bool.false_ne_true
      rw [takeBranch_nil, takeBranch_nil]
      exact ⟨rfl, fun h => absurd h Bool.false_ne_true⟩

/-- Attempting an element with fewer marks comes out as attempting the element itself. -/
theorem matchNode_unmarked (setting : Setting σ) (room : Nat) (node : Node) :
    AgreesUnmarked node (setting.matchNode room node)
      (setting.unmarked.matchNode room node.unmarked) := by
  induction room generalizing node with
  | zero =>
      intro taken track _
      cases node with
      | terminal modifiers span pattern =>
          exact ⟨(unmarked_matchTerminal _ _ _).symm, fun _ => rfl⟩
      | ref modifiers span name =>
          have hnodes : setting.unmarked.rules.nodes? name = _ :=
            setting.rules.nodes?_unmarked name
          rw [Node.unmarked, matchNode, matchNode, hnodes]
          rcases setting.rules.nodes? name with _ | nodes <;> exact ⟨rfl, fun _ => rfl⟩
      | alternation modifiers span branches onceEach =>
          rw [Node.unmarked, Node.unmarkedBranches_eq_map]
          cases branches <;> exact ⟨rfl, fun _ => rfl⟩
  | succ room ih =>
      intro taken track htaken
      have hbody := matchSequence_unmarked ih
      cases node with
      | terminal modifiers span pattern =>
          exact ⟨(unmarked_matchTerminal _ _ _).symm, fun _ => rfl⟩
      | ref modifiers span name =>
          have hnodes : setting.unmarked.rules.nodes? name = _ :=
            setting.rules.nodes?_unmarked name
          rw [Node.unmarked, matchNode, matchNode, hnodes]
          rcases setting.rules.nodes? name with _ | nodes
          · exact ⟨rfl, fun _ => rfl⟩
          · exact ⟨matchRule_unmarked (hbody nodes) name track, fun _ => rfl⟩
      | alternation modifiers span branches onceEach =>
          rw [Node.unmarked, Node.unmarkedBranches_eq_map]
          cases branches with
          | nil => exact ⟨rfl, fun _ => rfl⟩
          | cons first later =>
              have hbranches : setting.unmarked.matchBranches _ _ _ _ _ = _ :=
                matchBranches_unmarked hbody track.reader.checkpoint [] (first :: later) track
              have hagrees : (setting.takeBranch _ _ _ _).1 = _ ∧ _ := takeBranch_agrees
                track.reader.checkpoint onceEach modifiers.repeated htaken
                (setting.matchBranches track.reader.checkpoint
                  (matchSequence (setting.matchNode room)) [] (first :: later) track).1
                (setting.matchBranches track.reader.checkpoint
                  (matchSequence (setting.matchNode room)) [] (first :: later) track).2
              rw [← hbranches] at hagrees
              exact hagrees

/-- A whole run of rules with fewer marks ends as one of the rules does. -/
theorem matchRoot_unmarked (setting : Setting σ) (reader : Reader) (memory : σ) :
    setting.unmarked.matchRoot reader memory = (setting.matchRoot reader memory).unmarked := by
  have hnodes : setting.unmarked.rules.nodes? rootName = _ :=
    setting.rules.nodes?_unmarked rootName
  unfold matchRoot
  rw [hnodes, show setting.unmarked.limit = setting.limit from rfl]
  rcases setting.rules.nodes? rootName with _ | nodes
  · rfl
  · rcases setting.limit with _ | room
    · rfl
    · simp only [Option.map_some, tell, listener_unmarked]
      rcases (Track.openRule ⟨reader, [], none, memory⟩ rootName).emit setting.listener
        (.enter rootName) with ⟨_ | refusal | refusal, told⟩
      · dsimp only
        rw [matchSequence_unmarked (setting.matchNode_unmarked room)]
        exact leaveRule_unmarked _ _ _
      · exact (unmarked_failAt _ _ _).symm
      · rfl

end Setting

-- ============================================================================
-- Outcomes
-- ============================================================================

/-- Two outcomes of one kind, whatever they tell. -/
inductive Outcome.SameKind : Outcome → Outcome → Prop where
  | success : SameKind .success .success
  | failure (diagnostic other : Diagnostic) : SameKind (.failure diagnostic) (.failure other)
  | fatal (diagnostic other : Diagnostic) : SameKind (.fatal diagnostic) (.fatal other)

theorem Outcome.sameKind_refl (outcome : Outcome) : outcome.SameKind outcome := by
  cases outcome with
  | success => exact .success
  | failure diagnostic => exact .failure _ _
  | fatal diagnostic => exact .fatal _ _

theorem Ending.sameKind_outcome {ending other : Ending} (h : ending.unmarked = other.unmarked)
    (requireEnd : Bool) (track : Track σ) :
    (ending.outcome requireEnd track).SameKind (other.outcome requireEnd track) := by
  cases ending with
  | matched | failed =>
      cases other <;> cases h
      exact Outcome.sameKind_refl _
  | aborted abort =>
      cases other with
      | matched | failed => cases h
      | aborted => exact .fatal _ _

namespace RuleTable

/-- The last step for rules with fewer marks is that for the rules themselves. -/
theorem lastStep_unmarked (rules : RuleTable) (options : Options) (listener : Listener σ)
    (reader : Reader) (memory : σ) :
    rules.unmarked.lastStep options listener reader memory =
      ((rules.lastStep options listener reader memory).1.unmarked,
        (rules.lastStep options listener reader memory).2) := by
  rw [lastStep_eq_matchRoot, lastStep_eq_matchRoot, usesLineEnds_unmarked]
  exact (rules.setting options listener).matchRoot_unmarked _ memory

/-- Rules that differ in nothing but such marks match the same, but for what is told about an
    element that they show in different ways. -/
theorem matchFrom_of_unmarked_eq {rules other : RuleTable}
    (h : other.unmarked = rules.unmarked) (options : Options) (listener : Listener σ)
    (reader : Reader) (memory : σ) :
    let result := rules.matchFrom options listener reader memory
    let result' := other.matchFrom options listener reader memory
    result'.reader = result.reader ∧ result'.memory = result.memory ∧
      result'.outcome.SameKind result.outcome := by
  intro result result'
  rcases hlast : rules.lastStep options listener reader memory with ⟨ending, track⟩
  rcases hlast' : other.lastStep options listener reader memory with ⟨ending', track'⟩
  have hsame := other.lastStep_unmarked options listener reader memory
  rw [h, rules.lastStep_unmarked, hlast, hlast'] at hsame
  obtain ⟨hending, rfl⟩ := Prod.mk.inj hsame
  rw [show result = _ from matchFrom_of_lastStep hlast,
    show result' = _ from matchFrom_of_lastStep hlast']
  exact ⟨rfl, rfl, Ending.sameKind_outcome hending.symm _ _⟩

end RuleTable

end TokenGrammar
