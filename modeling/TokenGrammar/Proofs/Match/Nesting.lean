/-
  TokenGrammar.Proofs.Match.Nesting

  How the events of a run are nested.  A rule is open from the event that enters it to the
  one that leaves it, or for as long as the events go on if nothing leaves it: a rule that
  fails is never left, and the events that undo what it has read still belong to it.  So
  the events of a passage are those of a grammar of their own (`Nested`), whose only
  nonterminal is the stack of open rules, and in a list of that grammar every event that
  leaves a rule has its partner in front of it (`Nested.exists_bracket`).

  Main statement: `RuleTable.events_nest_by_rule`.
-/

import TokenGrammar.Proofs.Match.Coherence
import TokenGrammar.Proofs.Match.Effects
import TokenGrammar.Proofs.Match.Return
import TokenGrammar.Proofs.Match.Undoing

namespace TokenGrammar

variable {σ : Type}

-- ============================================================================
-- Brackets
-- ============================================================================

/-- Whether an event enters or leaves a rule. -/
def Event.isBoundary : Event → Bool
  | .enter _ => true
  | .leave _ => true
  | .token _ => false
  | .rewind _ => false

/-- The event at `last` leaves the rule that the one at `first` enters.  The same rules are
    open at both of them, all of these stay open in between, and in between no rule is
    entered or left while just these are open. -/
structure Bracket (events : List (Context × Event)) (rule : String) (path : List String)
    (first last : Nat) : Prop where
  lt : first < last
  enter : ∃ context, events[first]? = some (context, .enter rule) ∧ context.path = path
  leave : ∃ context, events[last]? = some (context, .leave rule) ∧ context.path = path
  inside : ∀ index, first < index → index < last → ∀ context event,
    events[index]? = some (context, event) →
      path <+: context.path ∧ (event.isBoundary = true → context.path ≠ path)

namespace Bracket

variable {events : List (Context × Event)} {rule : String} {path : List String}
  {first last : Nat}

theorem last_lt_length (h : Bracket events rule path first last) : last < events.length := by
  obtain ⟨context, hleave, -⟩ := h.leave
  exact (List.getElem?_eq_some_iff.1 hleave).1

/-- More events behind a bracket do not matter. -/
theorem append_right (h : Bracket events rule path first last)
    (after : List (Context × Event)) : Bracket (events ++ after) rule path first last := by
  have hlength := h.last_lt_length
  have hget : ∀ index, index ≤ last → (events ++ after)[index]? = events[index]? :=
    fun index hle => List.getElem?_append_left (by omega)
  have hlt := h.lt
  refine ⟨hlt, ?_, ?_, fun index hfirst hlast context event hevent => ?_⟩
  · rw [hget first (by omega)]
    exact h.enter
  · rw [hget last (Nat.le_refl last)]
    exact h.leave
  · rw [hget index (by omega)] at hevent
    exact h.inside index hfirst hlast context event hevent

/-- More events in front of a bracket only move it. -/
theorem append_left (h : Bracket events rule path first last)
    (before : List (Context × Event)) :
    Bracket (before ++ events) rule path (before.length + first) (before.length + last) := by
  have hget : ∀ index, (before ++ events)[before.length + index]? = events[index]? := by
    intro index
    rw [List.getElem?_append_right (Nat.le_add_right _ _), Nat.add_sub_cancel_left]
  have hlt := h.lt
  refine ⟨by omega, ?_, ?_, fun index hfirst hlast context event hevent => ?_⟩
  · rw [hget]
    exact h.enter
  · rw [hget]
    exact h.leave
  · obtain ⟨offset, rfl⟩ := Nat.exists_eq_add_of_le (Nat.le_of_lt (Nat.lt_of_le_of_lt
      (Nat.le_add_right before.length first) hfirst))
    rw [hget] at hevent
    exact h.inside offset (by omega) (by omega) context event hevent

theorem cons (h : Bracket events rule path first last) (entry : Context × Event) :
    Bracket (entry :: events) rule path (first + 1) (last + 1) := by
  have hmoved := h.append_left [entry]
  rw [List.length_singleton, Nat.add_comm 1 first, Nat.add_comm 1 last] at hmoved
  exact hmoved

/-- No event but one leaves what an event enters. -/
theorem last_eq {rule' : String} {path' : List String} {last' : Nat}
    (h : Bracket events rule path first last) (h' : Bracket events rule' path' first last') :
    last = last' := by
  have hpath : path = path' := by
    obtain ⟨context, henter, rfl⟩ := h.enter
    obtain ⟨context', henter', rfl⟩ := h'.enter
    rw [henter] at henter'
    cases henter'
    rfl
  -- The earlier one would be a boundary of just these rules inside the other bracket.
  have hnot : ∀ {rule rule' last last'}, Bracket events rule path first last →
      Bracket events rule' path first last' → ¬last < last' := by
    intro rule rule' last last' h h' hlt
    obtain ⟨context, hleave, hcontext⟩ := h.leave
    exact (h'.inside last h.lt hlt context _ hleave).2 rfl hcontext
  subst hpath
  have hle := hnot h h'
  have hge := hnot h' h
  omega

end Bracket

-- ============================================================================
-- Nested events
-- ============================================================================

/-- The events that a passage tells while the rules `scopes` are open, the innermost first:
    it takes terminals and goes back, and it enters further rules, each of which it leaves
    at most once. -/
inductive Nested : List String → List (Context × Event) → Prop where
  | nil (scopes : List String) : Nested scopes []
  | append {scopes : List String} {before after : List (Context × Event)}
      (hbefore : Nested scopes before) (hafter : Nested scopes after) :
      Nested scopes (before ++ after)
  | token (scopes : List String) (position : Nat) (matched : Matched) :
      Nested scopes [(⟨scopes, position⟩, .token matched)]
  | rewind (scopes : List String) (position target : Nat) :
      Nested scopes [(⟨scopes, position⟩, .rewind target)]
  | entered {scopes : List String} {rule : String} {body : List (Context × Event)}
      (position : Nat) (hbody : Nested (rule :: scopes) body) :
      Nested scopes ((⟨rule :: scopes, position⟩, .enter rule) :: body)
  | left {scopes : List String} {rule : String} {body back : List (Context × Event)}
      (position behind : Nat) (hbody : Nested (rule :: scopes) body)
      (hback : Nested (rule :: scopes) back) :
      Nested scopes ((⟨rule :: scopes, position⟩, .enter rule) ::
        (body ++ (⟨rule :: scopes, behind⟩, .leave rule) :: back))

namespace Nested

variable {scopes : List String} {events : List (Context × Event)}

/-- All events are told while the rules are open, and more than these when a rule is entered
    or left. -/
theorem within (h : Nested scopes events) :
    ∀ entry ∈ events, scopes <:+ entry.1.scopes ∧
      (entry.2.isBoundary = true → scopes.length < entry.1.scopes.length) := by
  -- What is told inside of a rule is told inside of the rules around it.
  have outwards : ∀ {rule : String} {scopes : List String} {entry : Context × Event},
      rule :: scopes <:+ entry.1.scopes → scopes <:+ entry.1.scopes ∧
        (entry.2.isBoundary = true → scopes.length < entry.1.scopes.length) :=
    fun hsuffix => ⟨(List.suffix_cons _ _).trans hsuffix, fun _ => hsuffix.length_le⟩
  induction h with
  | nil => exact fun entry hentry => nomatch hentry
  | append _ _ ihbefore ihafter => exact List.forall_mem_append.2 ⟨ihbefore, ihafter⟩
  | token scopes =>
      exact List.forall_mem_singleton.2 ⟨List.suffix_refl scopes, fun hboundary => nomatch hboundary⟩
  | rewind scopes =>
      exact List.forall_mem_singleton.2 ⟨List.suffix_refl scopes, fun hboundary => nomatch hboundary⟩
  | entered position _ ih =>
      refine List.forall_mem_cons.2 ⟨outwards (List.suffix_refl _), fun entry hentry => ?_⟩
      exact outwards (ih entry hentry).1
  | left position behind _ _ ihbody ihback =>
      refine List.forall_mem_cons.2 ⟨outwards (List.suffix_refl _), ?_⟩
      refine List.forall_mem_append.2 ⟨fun entry hentry => outwards (ihbody entry hentry).1, ?_⟩
      refine List.forall_mem_cons.2 ⟨outwards (List.suffix_refl _), fun entry hentry => ?_⟩
      exact outwards (ihback entry hentry).1

/-- A rule that is entered is the innermost one then. -/
theorem head?_of_enter (h : Nested scopes events) :
    ∀ context rule, (context, Event.enter rule) ∈ events → context.scopes.head? = some rule := by
  induction h with
  | nil => exact fun context rule hmem => nomatch hmem
  | append _ _ ihbefore ihafter =>
      intro context rule hmem
      rcases List.mem_append.1 hmem with hmem | hmem
      · exact ihbefore context rule hmem
      · exact ihafter context rule hmem
  | token => exact fun context rule hmem => nomatch List.mem_singleton.1 hmem
  | rewind => exact fun context rule hmem => nomatch List.mem_singleton.1 hmem
  | entered position _ ih =>
      intro context rule hmem
      rcases List.mem_cons.1 hmem with heq | hmem
      · cases heq
        rfl
      · exact ih context rule hmem
  | left position behind _ _ ihbody ihback =>
      intro context rule hmem
      rcases List.mem_cons.1 hmem with heq | hmem
      · cases heq
        rfl
      · rcases List.mem_append.1 hmem with hmem | hmem
        · exact ihbody context rule hmem
        · rcases List.mem_cons.1 hmem with heq | hmem
          · cases heq
          · exact ihback context rule hmem

/-- A rule that is left after what is nested in it is left by the partner of the event that
    entered it. -/
theorem bracket {rule : String} {body : List (Context × Event)}
    (hbody : Nested (rule :: scopes) body) (position behind : Nat)
    (back : List (Context × Event)) :
    Bracket ((⟨rule :: scopes, position⟩, .enter rule) ::
      (body ++ (⟨rule :: scopes, behind⟩, .leave rule) :: back)) rule (rule :: scopes).reverse
      0 (body.length + 1) := by
  refine ⟨Nat.succ_pos _, ⟨_, rfl, rfl⟩, ⟨⟨rule :: scopes, behind⟩, ?_, rfl⟩, ?_⟩
  · rw [List.getElem?_cons_succ, List.getElem?_append_right (Nat.le_refl _), Nat.sub_self]
    rfl
  · intro index hfirst hlast context event hevent
    obtain ⟨index, rfl⟩ := Nat.exists_eq_succ_of_ne_zero (Nat.ne_of_gt hfirst)
    rw [List.getElem?_cons_succ,
      List.getElem?_append_left (Nat.lt_of_succ_lt_succ hlast)] at hevent
    obtain ⟨hsuffix, hlonger⟩ := hbody.within _ (List.mem_of_getElem? hevent)
    refine ⟨List.reverse_prefix.2 hsuffix, fun hboundary heq => ?_⟩
    have hlength := hlonger hboundary
    rw [List.reverse_injective heq] at hlength
    exact Nat.lt_irrefl _ hlength

/-- Every event that leaves a rule has a partner in front of it. -/
theorem exists_bracket (h : Nested scopes events) {last : Nat} {context : Context}
    {rule : String} (hlast : events[last]? = some (context, .leave rule)) :
    ∃ first, Bracket events rule context.path first last := by
  induction h generalizing last with
  | nil => cases hlast
  | @append _ before after _ _ ihbefore ihafter =>
      rcases Nat.lt_or_ge last before.length with hlt | hge
      · rw [List.getElem?_append_left hlt] at hlast
        obtain ⟨first, hbracket⟩ := ihbefore hlast
        exact ⟨first, hbracket.append_right after⟩
      · obtain ⟨offset, rfl⟩ := Nat.exists_eq_add_of_le hge
        rw [List.getElem?_append_right hge, Nat.add_sub_cancel_left] at hlast
        obtain ⟨first, hbracket⟩ := ihafter hlast
        exact ⟨_, hbracket.append_left before⟩
  | token => cases List.mem_singleton.1 (List.mem_of_getElem? hlast)
  | rewind => cases List.mem_singleton.1 (List.mem_of_getElem? hlast)
  | @entered _ _ body position _ ih =>
      cases last with
      | zero => cases hlast
      | succ last =>
          obtain ⟨first, hbracket⟩ := ih hlast
          exact ⟨first + 1, hbracket.cons _⟩
  | @left scopes entered body back position behind hbody _ ihbody ihback =>
      cases last with
      | zero => cases hlast
      | succ last =>
          rw [List.getElem?_cons_succ] at hlast
          rcases Nat.lt_trichotomy last body.length with hlt | rfl | hgt
          · rw [List.getElem?_append_left hlt] at hlast
            obtain ⟨first, hbracket⟩ := ihbody hlast
            exact ⟨first + 1, (hbracket.append_right _).cons _⟩
          · rw [List.getElem?_append_right (Nat.le_refl _), Nat.sub_self] at hlast
            cases hlast
            exact ⟨0, hbody.bracket position behind back⟩
          · obtain ⟨offset, rfl⟩ := Nat.exists_eq_add_of_lt hgt
            have hoffset : body.length + offset + 1 - body.length = offset + 1 := by omega
            rw [List.getElem?_append_right (Nat.le_of_lt hgt), hoffset,
              List.getElem?_cons_succ] at hlast
            obtain ⟨first, hbracket⟩ := ihback hlast
            exact ⟨_, ((hbracket.cons _).append_left body).cons _⟩

end Nested

/-- The events of a rule that has been entered and not been left, where `scopes` begins with
    the rule itself. -/
def Entered (rule : String) (scopes : List String) (events : List (Context × Event)) : Prop :=
  ∃ position body, events = (⟨scopes, position⟩, .enter rule) :: body ∧ Nested scopes body

/-- The events of a rule that has been entered.  It may have been left, and if it is
    rejected then, it still has to go back. -/
inductive Opened (rule : String) (scopes : List String) : List (Context × Event) → Prop where
  | still {events : List (Context × Event)} (h : Entered rule scopes events) :
      Opened rule scopes events
  | left {before back : List (Context × Event)} (behind : Nat)
      (hbefore : Entered rule scopes before) (hback : Nested scopes back) :
      Opened rule scopes (before ++ (⟨scopes, behind⟩, .leave rule) :: back)

theorem Entered.append {rule : String} {scopes : List String}
    {before after : List (Context × Event)} (h : Entered rule scopes before)
    (hafter : Nested scopes after) : Entered rule scopes (before ++ after) := by
  obtain ⟨position, body, rfl, hbody⟩ := h
  exact ⟨position, body ++ after, rfl, hbody.append hafter⟩

theorem Opened.append {rule : String} {scopes : List String}
    {before after : List (Context × Event)} (h : Opened rule scopes before)
    (hafter : Nested scopes after) : Opened rule scopes (before ++ after) := by
  cases h with
  | still h => exact .still (h.append hafter)
  | left behind hbefore hback =>
      rw [List.append_assoc, List.cons_append]
      exact .left behind hbefore (hback.append hafter)

/-- The rule stays open. -/
theorem Opened.within {rule : String} {scopes : List String} {events : List (Context × Event)}
    (h : Opened rule scopes events) : ∀ entry ∈ events, scopes <:+ entry.1.scopes := by
  have hentered : ∀ {before}, Entered rule scopes before →
      ∀ entry ∈ before, scopes <:+ entry.1.scopes := by
    rintro before ⟨position, body, rfl, hbody⟩
    exact List.forall_mem_cons.2 ⟨List.suffix_refl scopes, fun entry hentry =>
      (hbody.within entry hentry).1⟩
  cases h with
  | still h => exact hentered h
  | left behind hbefore hback =>
      refine List.forall_mem_append.2 ⟨hentered hbefore, ?_⟩
      exact List.forall_mem_cons.2 ⟨List.suffix_refl scopes, fun entry hentry =>
        (hback.within entry hentry).1⟩

/-- What a rule tells is nested in the rules around it. -/
theorem Opened.nested {rule : String} {scopes : List String} {events : List (Context × Event)}
    (h : Opened rule (rule :: scopes) events) : Nested scopes events := by
  cases h with
  | still h =>
      obtain ⟨position, body, rfl, hbody⟩ := h
      exact .entered position hbody
  | left behind hbefore hback =>
      obtain ⟨position, body, rfl, hbody⟩ := hbefore
      exact .left position behind hbody hback

-- ============================================================================
-- What passages tell
-- ============================================================================

namespace Setting

/-- To tell events of some shape, and leave the same rules open unless the run stops. -/
def telling (shape : List String → List (Context × Event) → Prop) :
    Effect (σ × List (Context × Event)) where
  leads s t := t.scopes = s.scopes ∧
    ∃ events, t.history = s.history ++ events ∧ shape s.scopes events
  stops s _ t := ∃ events, t.history = s.history ++ events ∧ shape s.scopes events

variable {setting : Setting (σ × List (Context × Event))}
  {s t : Track (σ × List (Context × Event))}
  {shape shape' : List String → List (Context × Event) → Prop}

theorem telling_refl (s : Track (σ × List (Context × Event))) : (telling Nested).leads s s :=
  ⟨rfl, [], (List.append_nil _).symm, .nil _⟩

/-- More nested events, if a shape allows them. -/
theorem telling_trans
    (hextend : ∀ {scopes before after}, shape scopes before → Nested scopes after →
      shape scopes (before ++ after))
    (hst : (telling shape).leads s t) {passage : Passage (σ × List (Context × Event))}
    (hpassage : (telling Nested).Holds t passage) : (telling shape).Holds s passage := by
  obtain ⟨hscopes, before, hbefore, hshape⟩ := hst
  have hmore : ∀ {u : Track (σ × List (Context × Event))} {after},
      u.history = t.history ++ after → Nested t.scopes after →
        ∃ events, u.history = s.history ++ events ∧ shape s.scopes events := by
    intro u after hafter hnested
    rw [hscopes] at hnested
    exact ⟨before ++ after, by rw [hafter, hbefore, List.append_assoc], hextend hshape hnested⟩
  rcases passage with ⟨_ | failure | abort, u⟩
  · obtain ⟨hscopes', after, hafter, hnested⟩ := hpassage
    exact ⟨hscopes'.trans hscopes, hmore hafter hnested⟩
  · obtain ⟨hscopes', after, hafter, hnested⟩ := hpassage
    exact ⟨hscopes'.trans hscopes, hmore hafter hnested⟩
  · obtain ⟨after, hafter, hnested⟩ := hpassage
    exact hmore hafter hnested

/-- Telling an event adds it, whatever the answer is. -/
theorem telling_tell (hrecords : setting.Records) {event : Event}
    (hst : (telling shape).leads s t)
    (hshape : ∀ events, shape s.scopes events →
      shape' s.scopes (events ++ [(⟨s.scopes, t.reader.position⟩, event)])) :
    (telling shape').Holds s (setting.told event t) := by
  obtain ⟨hscopes, events, hevents, hnested⟩ := hst
  have hhistory : (t.emit setting.listener event).2.history =
      s.history ++ (events ++ [(⟨s.scopes, t.reader.position⟩, event)]) := by
    rw [history_emit hrecords, hevents, List.append_assoc, ← hscopes]
    rfl
  have hopen : (t.emit setting.listener event).2.scopes = s.scopes := hscopes
  unfold told tell
  rcases hemit : t.emit setting.listener event with ⟨_ | refusal | refusal, told⟩
  all_goals rw [hemit] at hhistory hopen
  · exact ⟨hopen, _, hhistory, hshape events hnested⟩
  · exact ⟨hopen, _, hhistory, hshape events hnested⟩
  · exact ⟨_, hhistory, hshape events hnested⟩

/-- Going back tells at most that. -/
theorem telling_rewind (hrecords : setting.Records) (checkpoint : Checkpoint)
    (t : Track (σ × List (Context × Event))) :
    (telling Nested).Holds t (setting.wentBack checkpoint t) := by
  have hscopes := Track.scopes_rewind setting.listener checkpoint t
  have htold : ∃ events, (t.rewind setting.listener checkpoint).2.history = t.history ++ events ∧
      Nested t.scopes events := by
    rcases Nat.lt_or_ge checkpoint.position t.reader.position with hlt | hge
    · rw [rewind_of_lt hlt, history_emit hrecords]
      exact ⟨_, rfl, .rewind _ _ _⟩
    · rw [rewind_of_le hge]
      exact ⟨[], (List.append_nil _).symm, .nil _⟩
  unfold wentBack putBack
  rcases hrewind : t.rewind setting.listener checkpoint with ⟨_ | refusal, back⟩
  all_goals rw [hrewind] at hscopes htold
  · exact ⟨hscopes, htold⟩
  · exact htold

theorem opened_failAt (hrecords : setting.Records) {rule : String} (failure : Failure)
    (checkpoint : Checkpoint) (hst : (telling (Opened rule)).leads s t) :
    (telling (Opened rule)).Holds s (setting.failAt checkpoint failure t) := by
  rw [failAt, putBack_eq_resume]
  exact (telling_trans Opened.append hst (telling_rewind hrecords checkpoint t)).resume
    (fun _ _ hback => hback) fun _ hback => hback

/-- A rule that has been entered is not open any more than before once it is left or has
    failed. -/
theorem opened_leaveRule (hrecords : setting.Records) {rule : String} (entry : Checkpoint)
    {passage : Passage (σ × List (Context × Event))}
    (hpassage : (telling (Entered rule)).Holds s passage) :
    (telling (Opened rule)).Holds s (setting.leaveRule rule entry passage) := by
  rcases passage with ⟨_ | failure | abort, t⟩
  · have hleave : (telling (Opened rule)).Holds s (setting.told (.leave rule) t) :=
      telling_tell hrecords hpassage fun events hentered => .left _ hentered (.nil _)
    rw [leaveRule, tell_eq_resume]
    refine hleave.resume ?_ fun told htold => htold
    exact fun failure told htold =>
      opened_failAt hrecords failure entry (t := told.offerHere failure) htold
  · obtain ⟨hscopes, events, hevents, hentered⟩ := hpassage
    exact opened_failAt hrecords failure entry ⟨hscopes, events, hevents, .still hentered⟩
  · obtain ⟨events, hevents, hentered⟩ := hpassage
    exact ⟨events, hevents, .still hentered⟩

/-- Entering a rule is the first thing that it tells. -/
theorem entered_emit (hrecords : setting.Records) (s : Track (σ × List (Context × Event)))
    (rule : String) :
    (telling (Entered rule)).leads (s.openRule rule)
      ((s.openRule rule).emit setting.listener (.enter rule)).2 :=
  ⟨rfl, _, history_emit hrecords _ _, _, [], rfl, .nil _⟩

theorem opened_enter (hrecords : setting.Records) (s : Track (σ × List (Context × Event)))
    (rule : String) {rejected : Failure → Track (σ × List (Context × Event)) → Passage _}
    {accepted : Track (σ × List (Context × Event)) → Passage _}
    (hrejected : ∀ failure told, (telling (Opened rule)).leads (s.openRule rule) told →
      (telling (Opened rule)).Holds (s.openRule rule) (rejected failure told))
    (haccepted : ∀ told, (telling (Entered rule)).leads (s.openRule rule) told →
      (telling (Opened rule)).Holds (s.openRule rule) (accepted told)) :
    (telling (Opened rule)).Holds (s.openRule rule)
      (setting.tell (.enter rule) (s.openRule rule) rejected accepted) := by
  have hentered := entered_emit hrecords s rule
  unfold tell
  rcases hemit : (s.openRule rule).emit setting.listener (.enter rule) with
    ⟨_ | refusal | refusal, told⟩
  all_goals rw [hemit] at hentered
  · exact haccepted told hentered
  · obtain ⟨hscopes, events, hevents, hentered⟩ := hentered
    exact hrejected _ told ⟨hscopes, events, hevents, .still hentered⟩
  · obtain ⟨-, events, hevents, hentered⟩ := hentered
    exact ⟨events, hevents, .still hentered⟩

/-- A rule tells nested events if what it holds does. -/
theorem nested_matchRule (hrecords : setting.Records) (s : Track (σ × List (Context × Event)))
    (rule : String) {body : Track (σ × List (Context × Event)) → Passage _}
    (hbody : ∀ t, (telling Nested).Holds t (body t)) :
    (telling Nested).Holds s (setting.matchRule rule body s) := by
  have hopened : (telling (Opened rule)).Holds (s.openRule rule)
      (setting.tell (.enter rule) (s.openRule rule)
        (fun failure told =>
          setting.failAt s.reader.checkpoint failure (told.offerHere failure))
        (fun told => setting.leaveRule rule s.reader.checkpoint (body told))) := by
    apply opened_enter hrecords
    · intro failure told htold
      exact opened_failAt hrecords failure _ (t := told.offerHere failure) htold
    · intro told htold
      exact opened_leaveRule hrecords _ (telling_trans Entered.append htold (hbody told))
  have hclosed : ∀ passage, (telling (Opened rule)).Holds (s.openRule rule) passage →
      (telling Nested).Holds s passage.closeRule := by
    intro passage hpassage
    rcases passage with ⟨_ | failure | abort, t⟩
    · obtain ⟨hscopes, events, hevents, hopened⟩ := hpassage
      exact ⟨congrArg List.tail hscopes, events, hevents, hopened.nested⟩
    · obtain ⟨hscopes, events, hevents, hopened⟩ := hpassage
      exact ⟨congrArg List.tail hscopes, events, hevents, hopened.nested⟩
    · obtain ⟨events, hevents, hopened⟩ := hpassage
      exact ⟨events, hevents, hopened.nested⟩
  exact hclosed _ hopened

/-- Matching tells nested events. -/
theorem upholds_nesting (hrecords : setting.Records) :
    setting.Upholds (fun _ => True) (telling Nested) where
  refl := telling_refl
  trans {s _ u} hst htu :=
    show (telling Nested).Holds s (.matched, u) from telling_trans Nested.append hst htu
  halt {s _ u abort} hst htu :=
    show (telling Nested).Holds s (.aborted abort, u) from telling_trans Nested.append hst htu
  offer s _ _ := telling_refl s
  rewind hst := telling_trans Nested.append hst (telling_rewind hrecords _ _)
  token {s _ _ _ matched _} _ _ :=
    telling_tell hrecords (telling_refl s) fun _ hnested => hnested.append (.token _ _ matched)
  rule s _ _ rule _ _ hbody := nested_matchRule hrecords s rule hbody
  undefinedRule _ _ _ _ _ _ := ⟨[], (List.append_nil _).symm, .nil _⟩
  recursionLimit _ := ⟨[], (List.append_nil _).symm, .nil _⟩
  fatalElement _ _ _ _ _ := ⟨[], (List.append_nil _).symm, .nil _⟩
  emptyRepetition _ _ _ _ := ⟨[], (List.append_nil _).symm, .nil _⟩

-- ============================================================================
-- Whole runs
-- ============================================================================

theorem nested_matchSequence (hrecords : setting.Records) (room : Nat) (nodes : List Node)
    (s : Track (σ × List (Context × Event))) :
    (telling Nested).Holds s (matchSequence (setting.matchNode room) nodes s) :=
  (upholds_nesting hrecords).matchSequence (fun _ _ => trivial)
    (fun _ _ => (upholds_nesting hrecords).matchNode setting.rules.passes_true room trivial) s

/-- A failure is no match, and neither is what stops the run on the way back. -/
theorem failAt_ne_matched (setting : Setting σ) (checkpoint : Checkpoint) (failure : Failure)
    (track after : Track σ) : setting.failAt checkpoint failure track ≠ (.matched, after) := by
  unfold failAt putBack
  rcases track.rewind setting.listener checkpoint with ⟨_ | refusal, back⟩
  · exact nofun
  · exact nofun

/-- If only what follows an accepted event can match, a match follows an accepted event. -/
theorem accepted_of_tell {setting : Setting σ} {event : Event} {track after : Track σ}
    {rejected : Failure → Track σ → Passage σ} {accepted : Track σ → Passage σ}
    (hrejected : ∀ failure told, rejected failure told ≠ (.matched, after))
    (h : setting.tell event track rejected accepted = (.matched, after)) :
    accepted (track.emit setting.listener event).2 = (.matched, after) := by
  unfold tell at h
  rcases hemit : track.emit setting.listener event with ⟨_ | refusal | refusal, told⟩
  all_goals rw [hemit] at h
  · exact h
  · exact absurd h (hrejected _ told)
  · cases h

/-- A rule that matches has been left, and that was accepted. -/
theorem matched_of_leaveRule {setting : Setting σ} {rule : String} {entry : Checkpoint}
    {passage : Passage σ} {after : Track σ}
    (h : setting.leaveRule rule entry passage = (.matched, after)) :
    ∃ t, passage = (.matched, t) ∧ after = (t.emit setting.listener (.leave rule)).2 := by
  rcases passage with ⟨_ | failure | abort, t⟩
  · rw [leaveRule] at h
    have hafter := accepted_of_tell (fun _ _ => setting.failAt_ne_matched _ _ _ after) h
    cases hafter
    exact ⟨t, rfl, rfl⟩
  · exact absurd h (setting.failAt_ne_matched _ _ _ after)
  · cases h

/-- What a whole run tells: nothing if it does not begin, and otherwise what the rule `ROOT`
    does, in the end that it is left if the rule matches. -/
theorem opened_matchRoot (hrecords : setting.Records) (reader : Reader)
    (memory : σ × List (Context × Event)) {ending : Ending}
    (h : setting.matchRoot reader memory = (ending, t)) (hmemory : memory.2 = []) :
    (t.history = [] ∧ ending ≠ .matched) ∨
      Opened rootName [rootName] t.history ∧ (ending = .matched → ∃ before behind,
        t.history = before ++ [(⟨[rootName], behind⟩, .leave rootName)] ∧
          Entered rootName [rootName] before) := by
  let s : Track (σ × List (Context × Event)) := ⟨reader, [], none, memory⟩
  have hempty : s.history = [] := by rw [Track.history, hmemory]; rfl
  unfold matchRoot at h
  dsimp only at h
  split at h
  · cases h
    exact .inl ⟨hempty, by rintro ⟨⟩⟩
  · cases h
    exact .inl ⟨hempty, by rintro ⟨⟩⟩
  · next nodes room _ _ =>
    let root : Track (σ × List (Context × Event)) := s.openRule rootName
    have hbody : ∀ told, (telling (Entered rootName)).leads root told →
        (telling (Entered rootName)).Holds root
          (matchSequence (setting.matchNode room) nodes told) := fun told htold =>
      telling_trans Entered.append htold (nested_matchSequence hrecords room nodes told)
    have hopened := opened_enter hrecords s rootName
      (fun failure told htold => opened_failAt hrecords failure reader.checkpoint htold)
      (fun told htold => opened_leaveRule hrecords reader.checkpoint (hbody told htold))
    have htells : Opened rootName [rootName] t.history := by
      rw [h] at hopened
      have hevents : ∃ events, t.history = root.history ++ events ∧
          Opened rootName [rootName] events := by
        cases ending with
        | matched => exact hopened.2
        | failed failure => exact hopened.2
        | aborted abort => exact hopened
      obtain ⟨events, hevents, hopened⟩ := hevents
      rw [hevents, show root.history = [] from hempty]
      exact hopened
    refine .inr ⟨htells, fun hmatched => ?_⟩
    rw [hmatched] at h
    obtain ⟨u, hmatch, rfl⟩ := matched_of_leaveRule
      (accepted_of_tell (fun _ _ => setting.failAt_ne_matched _ _ _ t) h)
    have hinside := hbody _ (entered_emit hrecords s rootName)
    rw [hmatch] at hinside
    obtain ⟨hscopes, before, hbefore, hentered⟩ := hinside
    refine ⟨before, u.reader.position, ?_, hentered⟩
    rw [history_emit hrecords, hbefore, show root.history = [] from hempty, List.nil_append,
      Track.context, hscopes]
    rfl

end Setting

-- ============================================================================
-- Matching
-- ============================================================================

namespace RuleTable

/-- Whatever the rules, the input, the start, the options and the listener are, the events
    of a match are nested by rule.  A rule that is entered is the innermost one then, and
    `ROOT` is the outermost.  Whenever a rule is left, it was entered before, and no other
    event leaves what was entered there; and a match that succeeds begins with entering
    the rule `ROOT` and ends with leaving it. -/
theorem events_nest_by_rule (rules : RuleTable) (options : Options)
    (listener : Listener σ) (reader : Reader) (memory : σ) :
    let result := rules.matchFrom options listener.recording reader (memory, [])
    (∀ (index : Nat) (context : Context) (rule : String),
      result.events[index]? = some (context, .enter rule) →
        context.path.head? = some rootName ∧ context.path.getLast? = some rule) ∧
    (∀ (last : Nat) (context : Context) (rule : String),
      result.events[last]? = some (context, .leave rule) →
        ∃ first, Bracket result.events rule context.path first last) ∧
    (∀ rule rule' path path' first last last', Bracket result.events rule path first last →
      Bracket result.events rule' path' first last' → last = last') ∧
    (result.outcome = .success →
      Bracket result.events rootName [rootName] 0 (result.events.length - 1)) := by
  intro result
  have hrecords : (rules.setting options listener.recording).Records := ⟨listener, rfl⟩
  rcases hlast : rules.lastStep options listener.recording reader (memory, []) with
    ⟨ending, track⟩
  have hevents : result.events = track.history := by
    rw [rules.events_eq_history options listener reader memory, hlast]
  have hsuccess : result.outcome = .success → ending = .matched := by
    intro houtcome
    rw [show result.outcome = _ from congrArg Result.outcome (matchFrom_of_lastStep hlast)]
      at houtcome
    cases ending with
    | matched => rfl
    | failed failure => cases houtcome
    | aborted abort => cases houtcome
  rw [lastStep_eq_matchRoot] at hlast
  have htold := Setting.opened_matchRoot hrecords _ _ hlast rfl
  have hnested : Nested [] track.history := by
    rcases htold with ⟨hnothing, -⟩ | ⟨hopened, -⟩
    · rw [hnothing]
      exact .nil []
    · exact hopened.nested
  have hwithin : ∀ entry ∈ track.history, [rootName] <:+ entry.1.scopes := by
    rcases htold with ⟨hnothing, -⟩ | ⟨hopened, -⟩
    · rw [hnothing]
      exact List.forall_mem_nil _
    · exact hopened.within
  rw [hevents]
  refine ⟨fun index context rule henter => ?_, fun last context rule hleave => ?_,
    fun _ _ _ _ _ _ _ h h' => h.last_eq h', fun houtcome => ?_⟩
  · have hmem := List.mem_of_getElem? henter
    obtain ⟨inner, hinner⟩ := hwithin _ hmem
    refine ⟨?_, List.getLast?_reverse.trans (hnested.head?_of_enter context rule hmem)⟩
    rw [Context.path, ← hinner, List.reverse_append]
    rfl
  · exact hnested.exists_bracket hleave
  · rcases htold with ⟨-, hnot⟩ | ⟨-, hleft⟩
    · exact absurd (hsuccess houtcome) hnot
    · obtain ⟨before, behind, hhistory, position, body, rfl, hbody⟩ := hleft (hsuccess houtcome)
      have hbracket := hbody.bracket position behind []
      rw [hhistory, List.length_append, List.length_cons, List.length_singleton]
      exact hbracket

/-- The rules `ROOT := item*` and `item := ID`. -/
def items : RuleTable where
  rules :=
    [⟨rootName, [.ref ⟨false, false, true, false⟩ .zero "item"], .zero⟩,
     ⟨"item", [.terminal .plain .zero (.ofCategory .identifier)], .zero⟩]

/-- Two words are two items, and the attempt at a third one is never left.  The rules that
    are open are the same in all three of them. -/
theorem third_item_stays_open :
    let result := items.matchFrom .default Listener.acceptAll.recording
      TokenStream.twoWords.reader ((), [])
    result.events.map Prod.snd =
        [.enter rootName, .enter "item", .token ⟨.identifier, "a", ⟨0, 1⟩, 1⟩, .leave "item",
          .enter "item", .token ⟨.identifier, "x", ⟨2, 3⟩, 3⟩, .leave "item", .enter "item",
          .leave rootName] ∧
      (∃ first, Bracket result.events "item" [rootName, "item"] first 6) ∧
      Bracket result.events rootName [rootName] 0 8 := by
  intro result
  have hsecond : result.events[6]? = some (⟨["item", rootName], 4⟩, .leave "item") :=
    eq_of_map_matchWithin (fun result => result.events[6]?) 20 rfl
  have hsuccess : result.outcome = .success := eq_of_map_matchWithin Result.outcome 20 rfl
  have hlength : result.events.length - 1 = 8 :=
    eq_of_map_matchWithin (fun result => result.events.length - 1) 20 rfl
  obtain ⟨-, hleave, -, hwhole⟩ :=
    items.events_nest_by_rule .default .acceptAll TokenStream.twoWords.reader ()
  have hbracket := hwhole hsuccess
  rw [hlength] at hbracket
  exact ⟨eq_of_map_matchWithin (fun result => result.events.map Prod.snd) 20 rfl,
    hleave 6 _ _ hsecond, hbracket⟩

end RuleTable

end TokenGrammar
