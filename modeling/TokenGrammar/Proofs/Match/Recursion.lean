/-
  TokenGrammar.Proofs.Match.Recursion

  Matching without a stack: a sequence matches its elements from left to right,
  a reference matches the sequence of its rule, an alternation tries its branches
  in order, and a repeated element is matched again until it fails.  Each of these
  is a function of the track it begins with, and whatever fails puts the reader
  back to where it began.

  The number `room` says how many more rules and alternations may be open at once;
  it is what the recursion descends by, and the only trace that the limit on the
  stack leaves here.
-/

import TokenGrammar.Match.Run

namespace TokenGrammar

/-- How something that was matched came out, and the track behind it. -/
abbrev Passage (σ : Type) : Type := Ending × Track σ

/-- A passage, and the branches that the alternation at hand has been matched by. -/
abbrev Attempt (σ : Type) : Type := Passage σ × List Nat

variable {σ : Type}

/-- Close the innermost rule, unless the run stops. -/
def Passage.closeRule : Passage σ → Passage σ
  | (.aborted abort, track) => (.aborted abort, track)
  | (ending, track) => (ending, track.closeRule)

namespace Setting

-- ============================================================================
-- Events
-- ============================================================================

/-- Put the reader back to a checkpoint and go on, unless the listener stops the
    run. -/
def putBack (setting : Setting σ) (checkpoint : Checkpoint) (track : Track σ)
    (goOn : Track σ → Passage σ) : Passage σ :=
  match track.rewind setting.listener checkpoint with
  | (some refusal, track) => (.aborted (.stopped refusal), track)
  | (none, track) => goOn track

/-- Tell the listener about an event and go on as it answers. -/
def tell (setting : Setting σ) (event : Event) (track : Track σ)
    (rejected : Failure → Track σ → Passage σ) (accepted : Track σ → Passage σ) : Passage σ :=
  match track.emit setting.listener event with
  | (.accepted, track) => accepted track
  | (.rejected refusal, track) => rejected (.rejected refusal) track
  | (.stopped refusal, track) => (.aborted (.stopped refusal), track)

/-- Fail, with the reader back at a checkpoint. -/
def failAt (setting : Setting σ) (checkpoint : Checkpoint) (failure : Failure)
    (track : Track σ) : Passage σ :=
  setting.putBack checkpoint track fun track => (.failed failure, track)

-- ============================================================================
-- Terminals, rules and alternations
-- ============================================================================

/-- Match a terminal.  A rejected match is a failure at its first token. -/
def matchTerminal (setting : Setting σ) (adjacent : Bool) (pattern : Terminal)
    (track : Track σ) : Passage σ :=
  match pattern.matchAt adjacent track.reader with
  | .error miss =>
    (.failed (.mismatch miss.mismatch), track.offer miss.position (.mismatch miss.mismatch))
  | .ok (matched, reader) =>
    setting.tell (.token matched) (track.withReader reader)
      (fun failure told =>
        setting.failAt track.reader.checkpoint failure (told.offer matched.position failure))
      (fun told => (.matched, told))

/-- Come to the end of a rule, of whose elements the passage tells, and say so.  A
    rejection counts as a failure at the next significant token. -/
def leaveRule (setting : Setting σ) (name : String) (entry : Checkpoint) :
    Passage σ → Passage σ
  | (.matched, track) =>
    setting.tell (.leave name) track
      (fun failure told => setting.failAt entry failure (told.offerHere failure))
      (fun told => (.matched, told))
  | (.failed failure, track) => setting.failAt entry failure track
  | (.aborted abort, track) => (.aborted abort, track)

/-- Match a rule that an element refers to, given how to match what it holds. -/
def matchRule (setting : Setting σ) (name : String) (body : Track σ → Passage σ)
    (track : Track σ) : Passage σ :=
  let entry := track.reader.checkpoint
  Passage.closeRule <|
    setting.tell (.enter name) (track.openRule name)
      (fun failure told => setting.failAt entry failure (told.offerHere failure))
      (fun told => setting.leaveRule name entry (body told))

/-- Match the first of some branches that does match, and tell its number, where
    the branches before them failed as `failed` says, the last one first.  Whenever
    a branch fails, the reader goes back to where the alternation began. -/
def matchBranches (setting : Setting σ) (entry : Checkpoint)
    (body : List Node → Track σ → Passage σ) (failed : List Failure) :
    List (List Node) → Track σ → Passage σ × Nat
  | [], track => ((.failed (.noAlternative failed.reverse), track), failed.length)
  | branch :: later, track =>
    match body branch track with
    | (.failed failure, track) =>
      match track.rewind setting.listener entry with
      | (some refusal, track) => ((.aborted (.stopped refusal), track), failed.length)
      | (none, track) => setting.matchBranches entry body (failure :: failed) later track
    | passage => (passage, failed.length)

/-- Come to the end of an alternation that earlier passes have matched by the
    branches `taken`.  If each branch may be taken only once, one that is taken again
    counts as a failure at the next significant token. -/
def takeBranch (setting : Setting σ) (entry : Checkpoint) (onceEach : Bool)
    (taken : List Nat) : Passage σ × Nat → Attempt σ
  | ((.matched, track), index) =>
    if onceEach then
      if taken.contains index then
        let failure := Failure.alreadySet index
        (setting.putBack entry track fun track => (.failed failure, track.offerHere failure), taken)
      else ((.matched, track), index :: taken)
    else ((.matched, track), taken)
  | (passage, _) => (passage, taken)

/-- Match an alternation, given how to match a sequence. -/
def matchAlternation (setting : Setting σ) (body : List Node → Track σ → Passage σ)
    (branches : List (List Node)) (onceEach : Bool) (taken : List Nat) (track : Track σ) :
    Attempt σ :=
  let entry := track.reader.checkpoint
  setting.takeBranch entry onceEach taken (setting.matchBranches entry body [] branches track)

-- ============================================================================
-- Elements and sequences
-- ============================================================================

/-- Match an element, which has matched `passes` times already, given how to attempt
    it once.  A repeated element is attempted again until it fails, and only while
    fewer tokens are left each time. -/
def matchElement (attempt : List Nat → Track σ → Attempt σ) (node : Node) (passes : Nat)
    (taken : List Nat) (track : Track σ) : Passage σ :=
  match attempt taken track with
  | ((.matched, after), taken) =>
    if node.modifiers.repeated then
      if after.reader.remaining < track.reader.remaining then
        matchElement attempt node (passes + 1) taken after
      else (.aborted (.emptyRepetition node), after)
    else (.matched, after)
  | ((.failed failure, after), _) =>
    if (node.modifiers.repeated && decide (0 < passes)) || node.modifiers.optional then
      (.matched, after)
    else if node.modifiers.fatal then (.aborted (.fatalElement failure), after)
    else (.failed failure, after)
  | ((.aborted abort, after), _) => (.aborted abort, after)
termination_by track.reader.remaining

/-- Match the elements of a sequence from left to right, given how to attempt one
    of them once. -/
def matchSequence (attempt : Node → List Nat → Track σ → Attempt σ) :
    List Node → Track σ → Passage σ
  | [], track => (.matched, track)
  | node :: rest, track =>
    match matchElement (attempt node) node 0 [] track with
    | (.matched, track) => matchSequence attempt rest track
    | passage => passage

/-- Attempt an element once, where `room` more rules and alternations may be open. -/
def matchNode (setting : Setting σ) (room : Nat) (node : Node) (taken : List Nat)
    (track : Track σ) : Attempt σ :=
  match node with
  | .terminal modifiers _ pattern =>
    (setting.matchTerminal modifiers.adjacent pattern track, taken)
  | .ref _ _ name =>
    match setting.rules.nodes? name with
    | none => ((.aborted (.undefinedRule name), track), taken)
    | some nodes =>
      match room with
      | 0 => ((.aborted (.recursionLimit setting.limit), track), taken)
      | room + 1 =>
        (setting.matchRule name (matchSequence (setting.matchNode room) nodes) track, taken)
  | .alternation _ _ [] _ => ((.failed .emptyAlternation, track), taken)
  | .alternation _ _ (first :: later) onceEach =>
    match room with
    | 0 => ((.aborted (.recursionLimit setting.limit), track), taken)
    | room + 1 =>
      setting.matchAlternation (matchSequence (setting.matchNode room)) (first :: later)
        onceEach taken track

-- ============================================================================
-- Whole runs
-- ============================================================================

/-- Match the rule that matching begins with.  It stays open at the end, and if it
    is rejected as it is entered, that is no failure to point at. -/
def matchRoot (setting : Setting σ) (reader : Reader) (memory : σ) : Passage σ :=
  let track : Track σ := ⟨reader, [], none, memory⟩
  let entry := reader.checkpoint
  match setting.rules.nodes? rootName, setting.limit with
  | none, _ => (.aborted .noRoot, track)
  | some _, 0 => (.aborted (.recursionLimit setting.limit), track)
  | some nodes, room + 1 =>
    setting.tell (.enter rootName) (track.openRule rootName) (setting.failAt entry)
      (fun told =>
        setting.leaveRule rootName entry (matchSequence (setting.matchNode room) nodes told))

end Setting

/-- Match the rule `ROOT` from where a reader stands, by recursion. -/
def RuleTable.matchRecursively (rules : RuleTable) (options : Options) (listener : Listener σ)
    (reader : Reader) (memory : σ) : Result σ :=
  let setting : Setting σ := ⟨rules, options.recursionLimit, listener⟩
  let reader := reader.withSkipLines (!rules.usesLineEnds)
  let (ending, track) := setting.matchRoot reader memory
  ⟨ending.outcome options.requireEnd track, track.reader, track.memory⟩

-- ============================================================================
-- Passages one after the other
-- ============================================================================

/-- Go on after a passage, unless the run stops. -/
def Passage.resume (rejected : Failure → Track σ → Passage σ) (accepted : Track σ → Passage σ) :
    Passage σ → Passage σ
  | (.matched, track) => accepted track
  | (.failed failure, track) => rejected failure track
  | (.aborted abort, track) => (.aborted abort, track)

theorem Passage.closeRule_eq_resume (passage : Passage σ) :
    passage.closeRule = passage.resume (fun failure track => (.failed failure, track.closeRule))
      fun track => (.matched, track.closeRule) := by
  rcases passage with ⟨_ | failure | abort, track⟩ <;> rfl

namespace Setting

/-- Tell the listener about an event, and nothing else: it matches if it is accepted. -/
def told (setting : Setting σ) (event : Event) (track : Track σ) : Passage σ :=
  setting.tell event track (fun failure told => (.failed failure, told))
    fun told => (.matched, told)

/-- Put the reader back to a checkpoint, and nothing else. -/
def wentBack (setting : Setting σ) (checkpoint : Checkpoint) (track : Track σ) : Passage σ :=
  setting.putBack checkpoint track fun back => (.matched, back)

theorem tell_eq_resume (setting : Setting σ) (event : Event) (track : Track σ)
    (rejected : Failure → Track σ → Passage σ) (accepted : Track σ → Passage σ) :
    setting.tell event track rejected accepted =
      (setting.told event track).resume rejected accepted := by
  unfold told tell
  rcases track.emit setting.listener event with ⟨_ | refusal | refusal, told⟩ <;> rfl

theorem putBack_eq_resume (setting : Setting σ) (checkpoint : Checkpoint) (track : Track σ)
    (goOn : Track σ → Passage σ) :
    setting.putBack checkpoint track goOn =
      (setting.wentBack checkpoint track).resume (fun failure back => (.failed failure, back))
        goOn := by
  unfold wentBack putBack
  rcases track.rewind setting.listener checkpoint with ⟨_ | refusal, back⟩ <;> rfl

theorem leaveRule_eq_resume (setting : Setting σ) (name : String) (entry : Checkpoint)
    (passage : Passage σ) :
    setting.leaveRule name entry passage = passage.resume (setting.failAt entry) fun track =>
      setting.tell (.leave name) track
        (fun failure told => setting.failAt entry failure (told.offerHere failure))
        fun told => (.matched, told) := by
  rcases passage with ⟨_ | failure | abort, track⟩ <;> rfl

theorem matchSequence_cons (attempt : Node → List Nat → Track σ → Attempt σ) (node : Node)
    (rest : List Node) (track : Track σ) :
    matchSequence attempt (node :: rest) track =
      (matchElement (attempt node) node 0 [] track).resume
        (fun failure track => (.failed failure, track)) (matchSequence attempt rest) := by
  rw [matchSequence]
  rcases matchElement (attempt node) node 0 [] track with ⟨_ | failure | abort, after⟩ <;> rfl

/-- Trying the branches from one of them on: if it fails, the reader goes back and the
    next one is tried. -/
theorem matchBranches_cons (setting : Setting σ) (entry : Checkpoint)
    (body : List Node → Track σ → Passage σ) (failed : List Failure) (branch : List Node)
    (later : List (List Node)) (track : Track σ) :
    setting.matchBranches entry body failed (branch :: later) track =
      match body branch track with
      | (.failed failure, after) =>
        match setting.wentBack entry after with
        | (.matched, back) => setting.matchBranches entry body (failure :: failed) later back
        | passage => (passage, failed.length)
      | passage => (passage, failed.length) := by
  rw [matchBranches]
  rcases body branch track with ⟨_ | failure | abort, after⟩
  · rfl
  · unfold wentBack putBack
    rcases hrewind : after.rewind setting.listener entry with ⟨_ | refusal, back⟩
    · simp only [hrewind]
    · simp only [hrewind]
  · rfl

end Setting

-- ============================================================================
-- A listener that accepts everything
-- ============================================================================

namespace Setting

variable {setting : Setting Unit}

theorem told_acceptAll (h : setting.listener = .acceptAll) (event : Event) (track : Track Unit) :
    setting.told event track = (.matched, track) := by
  unfold told tell Track.emit
  rw [h]
  rfl

theorem wentBack_acceptAll (h : setting.listener = .acceptAll) (checkpoint : Checkpoint)
    (track : Track Unit) :
    setting.wentBack checkpoint track =
      (.matched, track.withReader (track.reader.seek checkpoint)) := by
  unfold wentBack putBack Track.rewind Track.emit
  rw [h]
  by_cases hlt : checkpoint.position < track.reader.position
  · simp only [if_pos hlt]
    rfl
  · simp only [if_neg hlt]

end Setting

end TokenGrammar
