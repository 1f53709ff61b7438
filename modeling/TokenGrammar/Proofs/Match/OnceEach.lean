/-
  TokenGrammar.Proofs.Match.OnceEach

  Alternations whose branches may be taken only once.  From when the cursor of a frame comes
  to such an alternation until it moves on, the frame notes by which branches the passes that
  it counts went (`Setting.OnceEach`); every step keeps this (`Setting.Inherits`).

  Main statement: `RuleTable.branches_are_taken_once_each`.
-/

import Mathlib.Data.List.Nodup
import Mathlib.Data.List.Perm.Basic
import Mathlib.Tactic.IntervalCases
import TokenGrammar.Proofs.Match.Between
import TokenGrammar.Proofs.Match.Unmarked

namespace TokenGrammar

variable {σ : Type}

-- ============================================================================
-- Passes
-- ============================================================================

/-- Whether the cursor is, in a state, at the element that it is at in a frame that lies on
    some others: a frame that lies on them has the same elements to match, and for the same
    sequence. -/
def State.At (state : State σ) (frame : Frame) (below : List Frame) : Prop :=
  ∃ now, now :: below <:+ state.stack.frames ∧ now.origin = frame.origin ∧ now.rest = frame.rest

namespace Setting

/-- The step from a state counts a pass of the alternation for which the top frame was
    opened, by the branch with a number.  The frame that has the alternation at its cursor
    lies on some others. -/
inductive CountsPass (setting : Setting σ) (state : State σ) : List Frame → Nat → Prop where
  | counted {failed : List Failure} {later : List (List Node)} {parent : Stack} {node : Node}
      {after : State σ} (horigin : state.stack.top.origin = .branch failed later)
      (hpop : state.stack.pop? = some (parent, node)) (hstep : setting.step state = .next after)
      (hbelow : after.stack.below = parent.below)
      (hpasses : after.stack.top.passes = parent.top.passes + 1) :
      CountsPass setting state parent.below failed.length

/-- The branches by which passes were counted in the steps from some states, where both the
    states and the branches come with the last one first. -/
inductive PassesBy (setting : Setting σ) (below : List Frame) :
    List (State σ) → List Nat → Prop where
  | none : PassesBy setting below [] []
  | counted {states : List (State σ)} {state : State σ} {indices : List Nat} {index : Nat}
      (h : PassesBy setting below states indices) (hcounts : setting.CountsPass state below index) :
      PassesBy setting below (state :: states) (index :: indices)
  | uncounted {states : List (State σ)} {state : State σ} {indices : List Nat}
      (h : PassesBy setting below states indices)
      (hcounts : ∀ index, ¬setting.CountsPass state below index) :
      PassesBy setting below (state :: states) indices

/-- What a frame, which lies on some others, notes of the alternation at its cursor.  Since
    when the cursor has come to it, the branches by which passes were counted are those that
    have been taken, each of them once, and there are as many passes. -/
structure OnceEach (setting : Setting σ) (past : List (State σ)) (frame : Frame)
    (below : List Frame) (branches : List (List Node)) : Prop where
  counted : ∃ since earlier, past = since ++ earlier ∧ (∀ state ∈ since, state.At frame below) ∧
    (∀ state ∈ earlier.head?, ¬state.At frame below) ∧ setting.PassesBy below since frame.taken
  passes_eq : frame.passes = frame.taken.length
  nodup : frame.taken.Nodup
  lt_length : ∀ index ∈ frame.taken, index < branches.length

end Setting

/-- In a state, a branch of an alternation has matched that may be taken only once and has been
    taken.  The alternation is an element at the cursor of the top frame of a stack, and it is
    repeated. -/
structure State.ChoosesTaken (state : State σ) (parent : Stack) (node : Node) (index : Nat) :
    Prop where
  phase_eq : state.phase = .matching
  rest_eq : state.stack.top.rest = []
  origin_eq : ∃ failed later, state.stack.top.origin = .branch failed later ∧
    failed.length = index
  pop?_eq : state.stack.pop? = some (parent, node)
  onceEach : node.isOnceEach = true
  repeated : node.modifiers.repeated = true
  taken : index ∈ parent.top.taken

/-- There is one frame on some others in a stack. -/
theorem eq_of_cons_suffix {frame other : Frame} {below frames : List Frame}
    (h : frame :: below <:+ frames) (hother : other :: below <:+ frames) : frame = other := by
  have hsuffix := List.suffix_of_suffix_length_le h hother (Nat.le_refl _)
  exact (List.cons.inj (hsuffix.eq_of_length rfl)).1

theorem State.At.congr {state : State σ} {frame other : Frame} {below : List Frame}
    (h : state.At frame below) (horigin : frame.origin = other.origin)
    (hrest : frame.rest = other.rest) : state.At other below := by
  obtain ⟨now, hnow, hnowOrigin, hnowRest⟩ := h
  exact ⟨now, hnow, hnowOrigin.trans horigin, hnowRest.trans hrest⟩

namespace Setting

variable {setting : Setting σ} {state after : State σ} {frame before : Frame}
  {below : List Frame} {index : Nat}

/-- If a pass is counted, the number of passes grows by one. -/
theorem CountsPass.passes_eq (h : setting.CountsPass state below index)
    (hstep : setting.step state = .next after) (hbefore : before :: below <:+ state.stack.frames)
    (hframe : frame :: below <:+ after.stack.frames) : frame.passes = before.passes + 1 := by
  cases h with
  | @counted failed later parent node after' horigin hpop hstep' hbelow hpasses =>
      obtain rfl : after' = after := Step.next.inj (hstep'.symm.trans hstep)
      have hparent : parent.top :: parent.below <:+ state.stack.frames := by
        rw [show parent.top :: parent.below = state.stack.below from
          (Stack.frames_of_pop? hpop).symm]
        exact List.suffix_cons _ _
      have htop : after'.stack.top :: parent.below <:+ after'.stack.frames := by
        rw [← hbelow]
        exact List.suffix_refl _
      rw [eq_of_cons_suffix hframe htop, eq_of_cons_suffix hbefore hparent, hpasses]

-- ============================================================================
-- Steps
-- ============================================================================

/-- What a step makes of a frame, which lies on some others, whose cursor is at an alternation
    with so many branches that may be taken only once. -/
inductive Inherits (setting : Setting σ) (state : State σ) (frame : Frame) (below : List Frame)
    (branches : List (List Node)) : Prop where
  | kept {before : Frame} (hbefore : before :: below <:+ state.stack.frames)
      (horigin : before.origin = frame.origin) (hrest : before.rest = frame.rest)
      (hpasses : before.passes = frame.passes) (htaken : before.taken = frame.taken)
  /-- A pass is counted by a branch that had not been taken. -/
  | counted {before : Frame} {index : Nat} (hbefore : before :: below <:+ state.stack.frames)
      (horigin : before.origin = frame.origin) (hrest : before.rest = frame.rest)
      (hcounts : setting.CountsPass state below index) (hnew : index ∉ before.taken)
      (hlt : index < branches.length) (hpasses : frame.passes = before.passes + 1)
      (htaken : frame.taken = index :: before.taken)
  /-- The cursor has come to the alternation. -/
  | begun (hpasses : frame.passes = 0) (htaken : frame.taken = [])
      (hnew : ¬state.At frame below)

variable {modifiers : Modifiers} {span : Span} {branches : List (List Node)} {rest : List Node}

/-- A cursor that has moved has come to where it is. -/
theorem inherits_advance {parent : Stack} {node : Node} {before : Frame}
    (hbefore : before :: parent.below <:+ state.stack.frames)
    (hrest : before.rest = parent.top.rest) (hcursor : ∃ rest, parent.top.rest = node :: rest) :
    setting.Inherits state parent.top.advance parent.below branches := by
  obtain ⟨rest, hcursor⟩ := hcursor
  refine .begun rfl rfl ?_
  rintro ⟨now, hnow, -, hmoved⟩
  obtain rfl := eq_of_cons_suffix hnow hbefore
  have hsame : node :: rest = rest := by
    rw [← hcursor, ← hrest, hmoved, Frame.advance, hcursor]
    rfl
  exact List.cons_ne_self _ _ hsame

/-- A frame that was below the top one is there before. -/
theorem cons_suffix_of_pop? {stack parent : Stack} {node : Node}
    (h : stack.pop? = some (parent, node)) : parent.top :: parent.below <:+ stack.frames := by
  rw [show parent.top :: parent.below = stack.below from (Stack.frames_of_pop? h).symm]
  exact List.suffix_cons _ _

theorem inherits_afterFailure {parent : Stack} {node : Node} {failure : Failure}
    {track : Track σ} (h : setting.Fails state parent node failure track)
    (hnext : parent.afterFailure node failure track = .next after) :
    setting.Inherits state after.stack.top after.stack.below branches := by
  have hbefore : ∃ before, before :: parent.below <:+ state.stack.frames ∧
      before.origin = parent.top.origin ∧ before.rest = parent.top.rest ∧
      before.passes = parent.top.passes ∧ before.taken = parent.top.taken ∧
      ∃ rest, parent.top.rest = node :: rest := by
    rcases h.closes with ⟨-, rfl, hcursor, -⟩ | ⟨hpop, -, -⟩
    · exact ⟨state.stack.top, List.suffix_refl _, rfl, rfl, rfl, rfl, hcursor⟩
    · exact ⟨parent.top, cons_suffix_of_pop? hpop, rfl, rfl, rfl, rfl,
        Stack.exists_rest_of_pop? hpop⟩
  obtain ⟨before, hbefore, horigin, hrest, hpasses, htaken, hcursor⟩ := hbefore
  unfold Stack.afterFailure at hnext
  split at hnext
  · cases hnext
    exact inherits_advance hbefore hrest hcursor
  · split at hnext <;> cases hnext
    exact .kept hbefore horigin hrest hpasses htaken

theorem inherits_afterMatch {parent : Stack} {node : Node} {track : Track σ}
    (hcoherent : setting.Coherent state.stack state.track.reader state.track.scopes)
    (h : setting.Matches state parent node track)
    (hnext : parent.afterMatch node track = .next after)
    (hcursor : after.stack.top.rest = .alternation modifiers span branches true :: rest) :
    setting.Inherits state after.stack.top after.stack.below branches := by
  have hstep := h.step_eq.trans hnext
  obtain ⟨following, hnode⟩ := h.closes.1
  unfold Stack.afterMatch at hnext
  split at hnext
  · split at hnext <;> cases hnext
    obtain ⟨rfl, -⟩ := List.cons.inj (hnode.symm.trans hcursor)
    cases h with
    | @rule stack parent _ _ _ name hleft horigin _ hpop =>
        obtain ⟨other, _, hcloses⟩ := hcoherent.exists_closes
          (show stack.top.origin ≠ .root by simp [horigin])
        obtain ⟨rfl, rfl⟩ := Prod.mk.inj (Option.some.inj (hcloses.pop?_eq.symm.trans hpop))
        obtain ⟨_, _, -, hopens⟩ := hcloses.opened
        rw [show stack.top.origin = .rule name from horigin] at hopens
        cases hopens
    | branch _ _ _ honce => cases honce
    | @newBranch stack parent _ _ failed later hleft horigin hpop _ htaken =>
        obtain ⟨other, _, hcloses⟩ := hcoherent.exists_closes
          (show stack.top.origin ≠ .root by simp [horigin])
        obtain ⟨rfl, rfl⟩ := Prod.mk.inj (Option.some.inj (hcloses.pop?_eq.symm.trans hpop))
        obtain ⟨_, _, -, hopens⟩ := hcloses.opened
        rw [show stack.top.origin = .branch failed later from horigin] at hopens
        have hlt : failed.length < branches.length := by
          cases hopens with
          | branch htried =>
              rw [htried, List.length_append, List.length_cons]
              omega
        have hnew : failed.length ∉ other.top.taken := by
          rw [← List.contains_iff_mem, htaken]
          exact Bool.false_ne_true
        have hbefore : other.top :: other.below <:+ stack.frames := cons_suffix_of_pop? hpop
        have hcounts : setting.CountsPass ⟨stack, .matching, track⟩ other.below failed.length :=
          .counted horigin hpop hstep rfl rfl
        exact .counted hbefore rfl rfl hcounts hnew hlt rfl rfl
  · cases hnext
    have hbefore : ∃ before, before :: parent.below <:+ state.stack.frames ∧
        before.rest = parent.top.rest := by
      cases h with
      | @terminal stack => exact ⟨stack.top, List.suffix_refl _, rfl⟩
      | @rule _ parent _ _ _ _ _ _ _ hpop => exact ⟨parent.top, cons_suffix_of_pop? hpop, rfl⟩
      | @branch _ parent _ _ _ _ _ _ hpop => exact ⟨parent.top, cons_suffix_of_pop? hpop, rfl⟩
      | @newBranch _ parent _ _ _ _ _ _ hpop => exact ⟨parent.top, cons_suffix_of_pop? hpop, rfl⟩
    obtain ⟨before, hbefore, hrest⟩ := hbefore
    exact inherits_advance hbefore hrest ⟨following, hnode⟩

/-- A frame that is opened has not been there before. -/
theorem inherits_push {pushed : Stack} {origin : Origin} {nodes : List Node}
    {checkpoint : Checkpoint}
    (hpush : state.attempting.push? (.start origin nodes checkpoint) = some pushed) :
    setting.Inherits state pushed.top pushed.below branches := by
  obtain ⟨htop, hbelow⟩ := List.cons.inj (Stack.frames_of_push? hpush)
  rw [htop, hbelow]
  refine .begun rfl rfl ?_
  rintro ⟨now, hnow, -, -⟩
  exact Nat.not_succ_le_self _ hnow.length_le

/-- What a step makes of the top frame. -/
theorem inherits_top
    (hcoherent : setting.Coherent state.stack state.track.reader state.track.scopes)
    (hstep : setting.step state = .next after)
    (hcursor : after.stack.top.rest = .alternation modifiers span branches true :: rest) :
    setting.Inherits state after.stack.top after.stack.below branches := by
  have hbrings := brings_step hcoherent
  rw [hstep] at hbrings
  generalize hnext : Step.next after = step at hbrings
  cases hbrings with
  | failed hfails => exact inherits_afterFailure hfails hnext.symm
  | matched hmatches => exact inherits_afterMatch hcoherent hmatches hnext.symm hcursor
  | branch _ _ hpush | rule _ _ hpush | rejectedEnter _ _ hpush =>
      cases hnext
      exact inherits_push hpush
  | rejectedLeave =>
      cases hnext
      exact .kept (List.suffix_refl _) rfl rfl rfl rfl
  | @nextBranch failure failed next later back horigin _ =>
      cases hnext
      refine .begun rfl rfl ?_
      rintro ⟨now, hnow, hsame, -⟩
      obtain rfl := eq_of_cons_suffix hnow (List.suffix_refl _)
      obtain ⟨hfailed, -⟩ := Origin.branch.inj (horigin.symm.trans hsame)
      exact List.cons_ne_self _ _ hfailed.symm
  | ends => cases hnext

/-- What a step makes of any frame. -/
theorem inherits_step
    (hcoherent : setting.Coherent state.stack state.track.reader state.track.scopes)
    (hstep : setting.step state = .next after) (hframe : frame :: below <:+ after.stack.frames)
    (hcursor : frame.rest = .alternation modifiers span branches true :: rest) :
    setting.Inherits state frame below branches := by
  rcases List.suffix_cons_iff.1 hframe with htop | hbelow
  · obtain ⟨rfl, rfl⟩ := List.cons.inj htop
    exact inherits_top hcoherent hstep hcursor
  · have hbrings := brings_step hcoherent
    rw [hstep] at hbrings
    rcases hbrings.below with hkept | ⟨-, -, hopened⟩
    · exact .kept (hbelow.trans (hkept.trans (List.suffix_cons _ _))) rfl rfl rfl rfl
    · rw [hopened] at hbelow
      rcases List.suffix_cons_iff.1 hbelow with hattempting | hbelow
      · obtain ⟨rfl, rfl⟩ := List.cons.inj hattempting
        exact .kept (List.suffix_refl _) rfl rfl rfl rfl
      · exact .kept (hbelow.trans (List.suffix_cons _ _)) rfl rfl rfl rfl

-- ============================================================================
-- Runs
-- ============================================================================

variable {reader : Reader} {memory : σ} {past : List (State σ)}

/-- A step keeps what a frame notes of an alternation at its cursor. -/
theorem Inherits.onceEach (h : setting.Inherits state frame below branches)
    (hstep : setting.step state = .next after) (hframe : frame :: below <:+ after.stack.frames)
    (hbefore : ∀ before, before :: below <:+ state.stack.frames → before.rest = frame.rest →
      setting.OnceEach past before below branches) :
    setting.OnceEach (state :: past) frame below branches := by
  cases h with
  | @kept before hsuffix horigin hrest hpasses htaken =>
      obtain ⟨⟨since, earlier, rfl, hsince, hearlier, hby⟩, heq, hnodup, hlt⟩ :=
        hbefore before hsuffix hrest
      rw [htaken] at heq hnodup hlt hby
      rw [hpasses] at heq
      refine ⟨⟨state :: since, earlier, rfl, ?_, ?_, hby.uncounted ?_⟩, heq, hnodup, hlt⟩
      · refine List.forall_mem_cons.2 ⟨⟨before, hsuffix, horigin, hrest⟩, ?_⟩
        exact fun between hmem => (hsince between hmem).congr horigin hrest
      · exact fun between hmem hat => hearlier between hmem (hat.congr horigin.symm hrest.symm)
      · intro index hcounts
        have hgrown := hcounts.passes_eq hstep hsuffix hframe
        omega
  | @counted before index hsuffix horigin hrest hcounts hnew hless hpasses htaken =>
      obtain ⟨⟨since, earlier, rfl, hsince, hearlier, hby⟩, heq, hnodup, hlt⟩ :=
        hbefore before hsuffix hrest
      refine ⟨⟨state :: since, earlier, rfl, ?_, ?_, ?_⟩, ?_, ?_, ?_⟩
      · refine List.forall_mem_cons.2 ⟨⟨before, hsuffix, horigin, hrest⟩, ?_⟩
        exact fun between hmem => (hsince between hmem).congr horigin hrest
      · exact fun between hmem hat => hearlier between hmem (hat.congr horigin.symm hrest.symm)
      · rw [htaken]
        exact hby.counted hcounts
      · rw [hpasses, heq, htaken, List.length_cons]
      · rw [htaken]
        exact hnodup.cons hnew
      · rw [htaken]
        exact List.forall_mem_cons.2 ⟨hless, hlt⟩
  | begun hpasses htaken hnew =>
      refine ⟨⟨[], state :: past, rfl, List.forall_mem_nil _, ?_, ?_⟩, ?_, ?_, ?_⟩
      · intro latest hlatest
        obtain rfl : state = latest := Option.some.inj hlatest
        exact hnew
      · rw [htaken]
        exact .none
      · rw [hpasses, htaken]
        rfl
      · rw [htaken]
        exact List.nodup_nil
      · rw [htaken]
        exact List.forall_mem_nil _

/-- In every state of a run, every frame whose cursor is at an alternation with branches that
    may be taken only once notes the branches that have been taken. -/
theorem Arrives.onceEach (h : setting.Arrives (setting.start reader memory) past state)
    (hframe : frame :: below <:+ state.stack.frames)
    (hcursor : frame.rest = .alternation modifiers span branches true :: rest) :
    setting.OnceEach past frame below branches := by
  induction h generalizing frame below with
  | begin hbegin =>
      obtain ⟨nodes, room, hstack⟩ := stack_of_start hbegin
      rw [hstack] at hframe
      rcases List.suffix_cons_iff.1 hframe with htop | hbelow
      · obtain ⟨rfl, rfl⟩ := List.cons.inj htop
        refine ⟨⟨[], [], rfl, List.forall_mem_nil _, fun state hmem => ?_, .none⟩, rfl,
          List.nodup_nil, List.forall_mem_nil _⟩
        exact absurd hmem (Option.not_mem_none state)
      · cases List.suffix_nil.1 hbelow
  | @step past before after harrives hstep ih =>
      refine (inherits_step harrives.coherent hstep hframe hcursor).onceEach hstep hframe ?_
      exact fun earlier hearlier hrest => ih hearlier (hrest.trans hcursor)

theorem OnceEach.passes_le (h : setting.OnceEach past frame below branches) :
    frame.passes ≤ branches.length := by
  have hsubset : frame.taken ⊆ List.range branches.length := fun index hmem =>
    List.mem_range.2 (h.lt_length index hmem)
  rw [h.passes_eq, ← List.length_range (n := branches.length)]
  exact (List.subperm_of_subset h.nodup hsubset).length_le

/-- If a branch has matched that had been taken, the step goes back to where the pass began,
    which is right behind the pass before it, and the alternation has matched. -/
theorem Arrives.step_of_choosesTaken (h : setting.Arrives (setting.start reader memory) past state)
    {parent : Stack} {node : Node} (hchooses : state.ChoosesTaken parent node index) :
    ∃ begun earlier, BeganAt (state :: past) parent.frames begun earlier ∧
      parent = begun.attempting ∧
      (∃ before pass, earlier.head? = some before ∧
        setting.Matches before pass node begun.track) ∧
      setting.step state = setting.rewindThen begun.track.reader.checkpoint state.track
        (fun back => .matching (parent.withTop parent.top.advance)
          (back.offerHere (.alreadySet index))) ∧
      state.track.reader.seek begun.track.reader.checkpoint = begun.track.reader ∧
      begun.track.scopes = state.track.scopes := by
  obtain ⟨hphase, hleft, ⟨failed, later, horigin, rfl⟩, hpop, honce, hrepeated, htaken⟩ := hchooses
  obtain ⟨begun, earlier, hbegan, hparent, hscopes, hback, hentry⟩ :=
    h.exists_beganAt hpop (by simp [horigin])
  obtain ⟨rest, hcursor⟩ := Stack.exists_rest_of_pop? hpop
  have hpasses : 0 < parent.top.passes := by
    cases node with
    | terminal | ref => cases honce
    | alternation modifiers span branches onceEach =>
        obtain rfl : onceEach = true := honce
        rw [(h.onceEach (cons_suffix_of_pop? hpop) hcursor).passes_eq]
        exact List.length_pos_of_mem htaken
  obtain ⟨stack, phase, track⟩ := state
  obtain rfl : phase = .matching := hphase
  rw [hentry] at hback
  rw [horigin] at hscopes
  refine ⟨begun, earlier, hbegan, hparent, ?_, ?_, hback, hscopes⟩
  · obtain ⟨later, hsplit, -⟩ := hbegan.since
    rw [hparent] at hcursor hpasses
    exact (h.of_eq_append hsplit).exists_matches hbegan.phase_eq hcursor hpasses
  · have habsorbs : parent.top.absorbs node.modifiers = true := by
      rw [Frame.absorbs, hrepeated, decide_eq_true hpasses]
      rfl
    rw [step_of_nil hleft, finish, horigin]
    simp only [finishBranch, hpop, honce, List.contains_iff_mem.2 htaken, if_true]
    rw [hentry]
    simp only [Stack.afterFailure, habsorbs, if_true]

end Setting

/-- The branches of an alternation that may be taken only once are.  Whatever the rules, the
    options, the listener and the tokens are, in every state of a run and for every frame
    whose cursor is at such an alternation, no branch has been taken twice since the cursor
    has come there, and there are as many passes as branches that have been taken
    (`Setting.OnceEach`), so no more than there are branches.  If a branch matches that has
    been taken (`State.ChoosesTaken`), the reader goes back to where the pass began, which is
    right behind the one before it; the open rules and the matches that survive are as they
    were then; and the cursor moves on.  For an alternation that does not repeat the mark
    does not matter: rules that differ in nothing but such marks tell the same events, and
    leave the reader in the same place with an outcome of the same kind. -/
theorem RuleTable.branches_are_taken_once_each (rules : RuleTable) (options : Options)
    (listener : Listener σ) (reader : Reader) (memory : σ) :
    let setting := rules.setting options listener.recording
    (∀ past state,
      setting.Arrives (rules.firstStep options listener.recording reader (memory, [])) past
          state →
        (∀ frame below modifiers span branches rest, frame :: below <:+ state.stack.frames →
          frame.rest = .alternation modifiers span branches true :: rest →
            setting.OnceEach past frame below branches ∧ frame.passes ≤ branches.length) ∧
        ∀ parent node index, state.ChoosesTaken parent node index →
          ∃ begun earlier, BeganAt (state :: past) parent.frames begun earlier ∧
            parent = begun.attempting ∧
            (∃ before pass, earlier.head? = some before ∧
              setting.Matches before pass node begun.track) ∧
            setting.step state = setting.rewindThen begun.track.reader.checkpoint state.track
              (fun back => .matching (parent.withTop parent.top.advance)
                (back.offerHere (.alreadySet index))) ∧
            ∀ refusal back, state.track.rewind setting.listener begun.track.reader.checkpoint =
              (refusal, back) → back.reader = begun.track.reader ∧
                back.scopes = begun.track.scopes ∧
                (reader.stream.Tiles → reader.position ≤ reader.stream.last →
                  consumed back.history = consumed begun.track.history)) ∧
    ∀ other : RuleTable, other.unmarked = rules.unmarked →
      let result := rules.matchFrom options listener.recording reader (memory, [])
      let result' := other.matchFrom options listener.recording reader (memory, [])
      result'.events = result.events ∧ result'.reader = result.reader ∧
        result'.outcome.SameKind result.outcome := by
  intro setting
  refine ⟨fun past state h => ?_, fun other hother => ?_⟩
  · have harrives : setting.Arrives (setting.start (reader.withSkipLines (!rules.usesLineEnds))
      (memory, [])) past state := h
    refine ⟨fun frame below modifiers span branches rest hframe hcursor => ?_, ?_⟩
    · have honce := harrives.onceEach hframe hcursor
      exact ⟨honce, honce.passes_le⟩
    · intro parent node index hchooses
      obtain ⟨begun, earlier, hbegan, hparent, hbefore, hstep, hreader, hscopes⟩ :=
        harrives.step_of_choosesTaken hchooses
      refine ⟨begun, earlier, hbegan, hparent, hbefore, hstep, fun refusal back hback => ?_⟩
      have hbackReader := Track.reader_rewind setting.listener begun.track.reader.checkpoint
        state.track
      have hbackScopes := Track.scopes_rewind setting.listener begun.track.reader.checkpoint
        state.track
      rw [hback] at hbackReader hbackScopes
      refine ⟨hbackReader.trans hreader, hbackScopes.trans hscopes.symm, fun htiles hlast => ?_⟩
      have hconsumed := Setting.Arrives.consumed_of_rewind ⟨listener, rfl⟩
        (show (reader.withSkipLines (!rules.usesLineEnds)).stream.Tiles from htiles) hlast harrives
        hbegan
      rw [hback] at hconsumed
      exact hconsumed
  · intro result result'
    obtain ⟨hreader, hmemory, hkind⟩ := matchFrom_of_unmarked_eq hother options
      listener.recording reader (memory, [])
    exact ⟨congrArg (fun memory => memory.2.reverse) hmemory, hreader, hkind⟩

/-- The rule `ROOT := [ ID | SYMBOL ]$* [ ID ]$`. -/
def RuleTable.wordAndSymbol : RuleTable where
  rules :=
    [⟨rootName,
      [.alternation ⟨false, false, true, false⟩ .zero
        [[.terminal .plain .zero (.ofCategory .identifier)],
          [.terminal .plain .zero (.ofCategory .symbol)]] true,
        .alternation .plain .zero [[.terminal .plain .zero (.ofCategory .identifier)]] true],
      .zero⟩]

theorem TokenStream.tiles_pairAndWord : TokenStream.pairAndWord.Tiles := by
  refine ⟨by decide, by decide, rfl, rfl, fun position _ hlt => ?_, fun position _ hlt => ?_, rfl⟩
  all_goals
    replace hlt : position < 4 := hlt
    interval_cases position <;> decide

/-- The beginning of the tokens of a word, a symbol and another word. -/
def Reader.atPairAndWord : Reader := ⟨.pairAndWord, 0, true⟩

/-- A second word is not taken by the alternation that has taken a word and a symbol, and is
    left to the next one. -/
theorem RuleTable.second_word_is_left :
    let setting := wordAndSymbol.setting .default Listener.acceptAll.recording
    ∃ past state parent node, ∃ begun : State (Unit × List (Context × Event)),
      setting.Arrives (wordAndSymbol.firstStep .default Listener.acceptAll.recording
        .atPairAndWord ((), [])) past state ∧
      state.ChoosesTaken parent node 0 ∧ state.track.reader.position = 4 ∧
      parent.top.taken = [1, 0] ∧ begun ∈ past ∧
      setting.step state = setting.rewindThen begun.track.reader.checkpoint state.track
        (fun back => .matching (parent.withTop parent.top.advance)
          (back.offerHere (.alreadySet 0))) ∧
      begun.track.reader.position = 3 ∧
      consumed (state.track.rewind setting.listener begun.track.reader.checkpoint).2.history =
        consumed begun.track.history ∧
      (wordAndSymbol.unmarked.matchFrom .default Listener.acceptAll.recording .atPairAndWord
        ((), [])).events =
        (wordAndSymbol.matchFrom .default Listener.acceptAll.recording .atPairAndWord
          ((), [])).events := by
  intro setting
  have hchooses : ∃ past state parent node,
      setting.Arrives (wordAndSymbol.firstStep .default Listener.acceptAll.recording
        .atPairAndWord ((), [])) past state ∧
      state.ChoosesTaken parent node 0 ∧ state.track.reader.position = 4 ∧
      parent.top.taken = [1, 0] ∧ parent.top.attempt.position = 3 :=
    ⟨_, _, _, _,
      .step (.step (.step (.step (.step (.step (.step (.step (.step (.step (.begin rfl) rfl) rfl)
        rfl) rfl) rfl) rfl) rfl) rfl) rfl) rfl,
      ⟨rfl, rfl, ⟨_, _, rfl, rfl⟩, rfl, rfl, rfl, List.mem_cons_of_mem _ List.mem_cons_self⟩, rfl,
      rfl, rfl⟩
  obtain ⟨past, state, parent, node, harrives, hchooses, hread, htaken, hattempt⟩ := hchooses
  obtain ⟨hruns, hmarks⟩ := wordAndSymbol.branches_are_taken_once_each .default .acceptAll
    .atPairAndWord ()
  obtain ⟨begun, earlier, hbegan, hparent, -, hstep, hback⟩ :=
    (hruns past state harrives).2 parent node 0 hchooses
  obtain ⟨-, -, hconsumed⟩ := hback _ _ rfl
  have hposition : begun.track.reader.position = 3 := by
    rw [← hattempt, hparent]
    rfl
  have hmem : begun ∈ past := by
    obtain ⟨later, hsplit, -⟩ := hbegan.since
    have hmem : begun ∈ state :: past := by
      rw [hsplit]
      exact List.mem_append_right _ List.mem_cons_self
    refine (List.mem_cons.1 hmem).resolve_left fun heq => ?_
    rw [heq, hread] at hposition
    cases hposition
  have hevents := (hmarks wordAndSymbol.unmarked rfl).1
  exact ⟨past, state, parent, node, begun, harrives, hchooses, hread, htaken, hmem, hstep,
    hposition, hconsumed TokenStream.tiles_pairAndWord (Nat.zero_le _), hevents⟩

end TokenGrammar
