/-
  TokenGrammar.Proofs.Match.Adjacency

  What becomes of a `~`.  A terminal that is to be adjacent to what comes before it begins
  with the very next token, whatever that is.  A reference or an alternation begins with
  whatever its first terminal takes: the `~` in front of it is never looked at, and rules
  without it match the same (`RuleTable.loosened`).

  Main statement: `RuleTable.adjacency_is_of_terminals`.
-/

import TokenGrammar.Proofs.Match.Return
import TokenGrammar.Proofs.Match.SideBySide

namespace TokenGrammar

variable {σ : Type}

-- ============================================================================
-- Terminals
-- ============================================================================

/-- The position of the very next token.  Nothing can be adjacent to the mark at the
    beginning, so that one is passed over. -/
def Reader.adjacentPosition (reader : Reader) : Nat :=
  if reader.peekAdjacent.cls == .beginning then reader.consume.position else reader.position

theorem Reader.position_next_adjacent (reader : Reader) :
    (reader.next true).position = reader.adjacentPosition := by
  simp only [next, adjacentPosition, if_true]
  split <;> rfl

/-- What a terminal matches begins at its first token. -/
theorem Terminal.position_of_matchAt {pattern : Terminal} {adjacent : Bool}
    {reader behind : Reader} {matched : Matched}
    (h : pattern.matchAt adjacent reader = .ok (matched, behind)) :
    matched.position = (reader.next adjacent).position := by
  unfold matchAt at h
  split at h
  · unfold matchNumber at h
    dsimp only at h
    split at h
    · split at h
      · cases h
      · cases h
        rfl
    · cases h
  · unfold matchString at h
    dsimp only at h
    split at h
    · split at h
      · split at h
        · cases h
          rfl
        · cases h
      · split at h
        · cases h
          rfl
        · cases h
    · cases h
  · unfold matchSingle at h
    dsimp only at h
    split at h
    · cases h
      rfl
    · cases h

-- ============================================================================
-- Rules with less to say
-- ============================================================================

/-- The same modifiers, without what is said about what comes before. -/
def Modifiers.loosened (modifiers : Modifiers) : Modifiers := { modifiers with adjacent := false }

namespace Node

mutual

/-- The same element, where no reference and no alternation is to be adjacent to what comes
    before it. -/
def loosened : Node → Node
  | .terminal modifiers span pattern => .terminal modifiers span pattern
  | .ref modifiers span rule => .ref modifiers.loosened span rule
  | .alternation modifiers span branches onceEach =>
    .alternation modifiers.loosened span (loosenedBranches branches) onceEach

/-- The elements of a sequence likewise. -/
def loosenedElements : List Node → List Node
  | [] => []
  | node :: rest => node.loosened :: loosenedElements rest

/-- The branches of an alternation likewise. -/
def loosenedBranches : List (List Node) → List (List Node)
  | [] => []
  | branch :: rest => loosenedElements branch :: loosenedBranches rest

end

theorem loosenedElements_eq_map (nodes : List Node) : loosenedElements nodes = nodes.map loosened := by
  induction nodes with
  | nil => rfl
  | cons node rest ih => rw [loosenedElements, ih, List.map_cons]

theorem loosenedBranches_eq_map (branches : List (List Node)) :
    loosenedBranches branches = branches.map (·.map loosened) := by
  induction branches with
  | nil => rfl
  | cons branch rest ih => rw [loosenedBranches, ih, loosenedElements_eq_map, List.map_cons]

theorem agree_loosened (node : Node) : node.modifiers.Agree node.loosened.modifiers := by
  cases node <;> exact ⟨rfl, rfl, rfl⟩

theorem children_loosened (node : Node) : node.loosened.children = node.children.map loosened := by
  cases node with
  | terminal | ref => rfl
  | alternation modifiers span branches onceEach =>
      rw [loosened, children, loosenedBranches_eq_map, children, List.map_flatten]

end Node

/-- The same rule with loosened elements. -/
def Rule.loosened (rule : Rule) : Rule := { rule with nodes := rule.nodes.map Node.loosened }

namespace RuleTable

/-- The same rules with loosened elements. -/
def loosened (rules : RuleTable) : RuleTable where
  rules := rules.rules.map Rule.loosened
  nodup_names := by
    rw [List.map_map, show Rule.name ∘ Rule.loosened = Rule.name from rfl]
    exact rules.nodup_names

theorem nodes?_loosened (rules : RuleTable) (name : String) :
    rules.loosened.nodes? name = (rules.nodes? name).map (·.map Node.loosened) :=
  rules.nodes?_mapNodes name

/-- Loosened rules ask for line ends where the rules do. -/
theorem usesLineEnds_loosened (rules : RuleTable) :
    rules.loosened.usesLineEnds = rules.usesLineEnds := by
  have hvisits : rules.loosened.visits =
      rules.visits.map fun visit => (visit.1, visit.2.loosened) :=
    rules.visits_mapNodes Node.children_loosened
  rw [usesLineEnds, usesLineEnds, hvisits, List.any_map]
  congr 1
  funext visit
  obtain ⟨name, node⟩ := visit
  cases node <;> rfl

end RuleTable

-- ============================================================================
-- Runs of loosened rules
-- ============================================================================

/-- The same reason, where it names a loosened element. -/
def Abort.loosened : Abort → Abort
  | .emptyRepetition node => .emptyRepetition node.loosened
  | abort => abort

/-- The same ending, where it names a loosened element. -/
def Ending.loosened : Ending → Ending
  | .aborted abort => .aborted abort.loosened
  | ending => ending

namespace Setting

/-- A run of loosened rules beside one of the rules themselves. -/
def loosening : Pairing σ σ where
  node m n := n = m.loosened
  track t u := t = u
  failure f g := f = g
  stop a t b u := b = a.loosened ∧ t = u

variable {setting : Setting σ}

/-- What is matched of loosened rules. -/
def loosened (setting : Setting σ) : Setting σ := { setting with rules := setting.rules.loosened }

theorem loosening_told (setting : Setting σ) (event : Event) (track : Track σ) :
    loosening.Passages (setting.told event track) (setting.loosened.told event track) := by
  rw [show setting.loosened.told event track = setting.told event track from rfl]
  unfold told tell
  rcases track.emit setting.listener event with ⟨_ | refusal | refusal, told⟩
  · exact .matched rfl
  · exact .failed rfl rfl
  · exact .stopped ⟨rfl, rfl⟩

theorem loosening_wentBack (setting : Setting σ) (checkpoint : Checkpoint) (track : Track σ) :
    loosening.Passages (setting.wentBack checkpoint track)
      (setting.loosened.wentBack checkpoint track) := by
  rw [show setting.loosened.wentBack checkpoint track = setting.wentBack checkpoint track from rfl]
  unfold wentBack putBack
  rcases track.rewind setting.listener checkpoint with ⟨_ | refusal, back⟩
  · exact .matched rfl
  · exact .stopped ⟨rfl, rfl⟩

theorem loosening_elements (nodes : List Node) :
    List.Forall₂ (loosening : Pairing σ σ).node nodes (nodes.map Node.loosened) :=
  List.forall₂_map_right_iff.2 (List.forall₂_same.2 fun _ _ => rfl)

theorem loosening_alike (rules : RuleTable) (node : Node) :
    Node.Alike (loosening : Pairing σ σ).node rules rules.loosened node node.loosened := by
  cases node with
  | terminal modifiers span pattern => exact .terminal _ _ _ _ _ _
  | ref modifiers span name =>
      have hright := rules.nodes?_loosened name
      rcases hleft : rules.nodes? name with _ | nodes
      · rw [hleft] at hright
        exact .undefined hleft hright
      · rw [hleft] at hright
        exact .ref hleft hright (loosening_elements nodes)
  | alternation modifiers span branches onceEach =>
      rw [Node.loosened, Node.loosenedBranches_eq_map]
      refine .alternation _ _ _ _ _ (List.forall₂_map_right_iff.2 (List.forall₂_same.2 ?_))
      exact fun branch _ => loosening_elements branch

/-- What matching does by itself is the same for loosened elements.  No element gets
    further in one of the runs than in the other, since they leave the same track. -/
theorem inStep_loosened (setting : Setting σ) : setting.InStep setting.loosened loosening where
  alike := by
    rintro node _ rfl
    exact loosening_alike setting.rules node
  modifiers := by
    rintro node _ rfl
    exact node.agree_loosened
  enter := by
    rintro track _ name rfl
    exact setting.loosening_told _ _
  leave := by
    rintro track _ name rfl
    exact setting.loosening_told _ _
  closeRule := by
    rintro track _ rfl
    rfl
  offerHere := by
    rintro track _ failure _ rfl rfl
    rfl
  wentBack := by
    rintro start track _ _ rfl rfl
    exact setting.loosening_wentBack _ _
  terminal := by
    rintro modifiers _ span _ pattern _ track _ hnode rfl
    cases hnode
    apply passages_matchTerminal modifiers.adjacent pattern rfl rfl fun _ => rfl
    · rintro t _ f _ position rfl rfl
      rfl
    · intro matched behind _
      exact setting.loosening_told _ _
    · rintro back _ rfl
      exact setting.loosening_wentBack _ _
  noAlternative h := congrArg Failure.noAlternative (List.forall₂_eq_eq_eq ▸ h)
  emptyAlternation := rfl
  alreadySet _ := rfl
  undefinedRule _ h := ⟨rfl, h⟩
  recursionLimit h := ⟨rfl, h⟩
  fatalElement hfailure h := ⟨congrArg Abort.fatalElement hfailure.symm, h⟩
  emptyRepetition hnode h := ⟨congrArg Abort.emptyRepetition hnode, h⟩
  onlyLeft := by
    rintro room m n taken taken' t after u _ passes _ _ _ rfl _ _ rfl hfurther hnot
    exact absurd hfurther hnot
  onlyRight := by
    rintro room m n taken taken' t after u _ passes _ _ _ rfl _ _ rfl hnot hfurther
    exact absurd hfurther hnot

/-- A whole run of loosened rules ends as one of the rules does. -/
theorem matchRoot_loosened (setting : Setting σ) (reader : Reader) (memory : σ) :
    setting.loosened.matchRoot reader memory =
      ((setting.matchRoot reader memory).1.loosened, (setting.matchRoot reader memory).2) := by
  have hroot : Option.Rel (List.Forall₂ (loosening : Pairing σ σ).node)
      (setting.rules.nodes? rootName) (setting.loosened.rules.nodes? rootName) := by
    rw [show setting.loosened.rules.nodes? rootName = _ from setting.rules.nodes?_loosened rootName]
    rcases setting.rules.nodes? rootName with _ | nodes
    · exact .none
    · exact .some (loosening_elements nodes)
  have hstart : (loosening : Pairing σ σ).track ⟨reader, [], none, memory⟩
      ⟨reader, [], none, memory⟩ := rfl
  have hpassages := setting.inStep_loosened.matchRoot hstart rfl hroot fun _ _ h => ⟨rfl, h⟩
  revert hpassages
  generalize setting.matchRoot reader memory = p
  generalize setting.loosened.matchRoot reader memory = q
  intro hpassages
  cases hpassages with
  | matched h => exact congrArg _ h.symm
  | failed hfailure h => rw [← show _ = _ from hfailure, ← show _ = _ from h]; rfl
  | stopped h => rw [h.1, ← show _ = _ from h.2]; rfl
  | exemptLeft h => exact h.elim
  | exemptRight h => exact h.elim

end Setting

namespace RuleTable

/-- The last step for loosened rules is that for the rules themselves. -/
theorem lastStep_loosened (rules : RuleTable) (options : Options) (listener : Listener σ)
    (reader : Reader) (memory : σ) :
    rules.loosened.lastStep options listener reader memory =
      ((rules.lastStep options listener reader memory).1.loosened,
        (rules.lastStep options listener reader memory).2) := by
  rw [lastStep_eq_matchRoot, lastStep_eq_matchRoot, usesLineEnds_loosened]
  exact (rules.setting options listener).matchRoot_loosened _ memory

/-- A terminal that is to be adjacent to what comes before it begins with the very next
    token.  For references and alternations nothing of the kind holds: whatever the rules,
    the input, the start, the options and the listener are, without the `~` in front of
    them a match ends in the same way, with the reader in the same place and with the same
    memory of the listener.  Only a message that shows the element that repeats without
    consuming any input shows it without the `~`. -/
theorem adjacency_is_of_terminals (rules : RuleTable) (options : Options) (listener : Listener σ)
    (reader : Reader) (memory : σ) :
    (∀ (pattern : Terminal) (start behind : Reader) (matched : Matched),
      pattern.matchAt true start = .ok (matched, behind) →
        matched.position = start.adjacentPosition) ∧
    let last := rules.lastStep options listener reader memory
    rules.matchFrom options listener reader memory =
        ⟨last.1.outcome options.requireEnd last.2, last.2.reader, last.2.memory⟩ ∧
      rules.loosened.matchFrom options listener reader memory =
        ⟨last.1.loosened.outcome options.requireEnd last.2, last.2.reader, last.2.memory⟩ := by
  refine ⟨fun pattern start behind matched hmatch => ?_, rfl, ?_⟩
  · rw [Terminal.position_of_matchAt hmatch]
    exact start.position_next_adjacent
  · exact matchFrom_of_lastStep (rules.lastStep_loosened options listener reader memory)

/-- The rules `ROOT := ID ~item` and `item := ID`. -/
def adjacentItem : RuleTable where
  rules :=
    [⟨rootName,
      [.terminal .plain .zero (.ofCategory .identifier),
        .ref { Modifiers.plain with adjacent := true } .zero "item"], .zero⟩,
     ⟨"item", [.terminal .plain .zero (.ofCategory .identifier)], .zero⟩]

/-- A word that is adjacent to the beginning, and two words with a space in between that
    match as if there were no `~` in front of the reference. -/
theorem adjacent_item_matches_as_loosened :
    (∃ matched behind,
      Terminal.matchAt (.ofCategory .identifier) true TokenStream.twoWords.reader =
        .ok (matched, behind) ∧
      matched.position = 1 ∧ TokenStream.twoWords.reader.adjacentPosition = 1) ∧
    (adjacentItem.loosened.matchFrom .default .acceptAll TokenStream.twoWords.reader ()).outcome =
      .success := by
  have hmatch : ∃ matched behind,
      Terminal.matchAt (.ofCategory .identifier) true TokenStream.twoWords.reader =
        .ok (matched, behind) ∧ matched.position = 1 := ⟨_, _, rfl, rfl⟩
  obtain ⟨matched, behind, hmatch, hposition⟩ := hmatch
  obtain ⟨hterminal, -, hloosened⟩ :=
    adjacentItem.adjacency_is_of_terminals .default .acceptAll TokenStream.twoWords.reader ()
  have hadjacent := hterminal _ _ _ _ hmatch
  rw [hposition] at hadjacent
  have hruns : ∃ track,
      (adjacentItem.setting .default .acceptAll).runWithin 20
          (adjacentItem.firstStep .default .acceptAll TokenStream.twoWords.reader ()) =
        some (.matched, track) ∧ track.reader.atEnd = true := ⟨_, rfl, rfl⟩
  obtain ⟨track, hruns, hend⟩ := hruns
  have hlast : adjacentItem.lastStep .default .acceptAll TokenStream.twoWords.reader () =
      (.matched, track) := Setting.complete_of_runWithin hruns
  refine ⟨⟨matched, behind, hmatch, hposition, hadjacent.symm⟩, ?_⟩
  rw [hloosened, hlast]
  change Ending.outcome .matched true track = .success
  rw [Ending.outcome, hend]
  rfl

/-- A reference that is to be adjacent to the word before it matches behind a space: the
    reader is at the space when the rule is entered, and the first token that the rule
    takes is the one behind it. -/
theorem adjacent_reference_matches_behind_space :
    ∃ grammar word modifiers span,
      Grammar.compile "ROOT := ID ~Item\nItem := ID" = .ok grammar ∧
      grammar.rules.nodes? rootName = some [word, .ref modifiers span "Item"] ∧
      modifiers.adjacent = true ∧
      ((grammar.lexer.tokenize "a b").get 2).cls = .space ∧
      let result := grammar.parse grammar.lexer "a b" .default Listener.acceptAll.recording ((), [])
      result.outcome = .success ∧
      result.events[2]? = some (⟨["Item", rootName], 2⟩, .enter "Item") ∧
      result.events[3]? = some (⟨["Item", rootName], 4⟩,
        .token ⟨.identifier, "b", ⟨2, 3⟩, 3⟩) := by
  have hcompile : Grammar.compile "ROOT := ID ~Item\nItem := ID" =
      .ok (.ofRules ⟨[⟨rootName, [.terminal .plain ⟨8, 10⟩ (.ofCategory .identifier),
        .ref { Modifiers.plain with adjacent := true } ⟨11, 16⟩ "Item"], ⟨0, 16⟩⟩,
        ⟨"Item", [.terminal .plain ⟨25, 27⟩ (.ofCategory .identifier)], ⟨17, 27⟩⟩],
        by decide⟩) := by decide +kernel
  exact ⟨_, _, _, _, hcompile, rfl, rfl, by decide +kernel,
    eq_of_map_matchWithin Result.outcome 20 (by decide +kernel),
    eq_of_map_matchWithin (fun result => result.events[2]?) 20 (by decide +kernel),
    eq_of_map_matchWithin (fun result => result.events[3]?) 20 (by decide +kernel)⟩

end RuleTable

end TokenGrammar
