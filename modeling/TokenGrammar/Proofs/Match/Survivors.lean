/-
  TokenGrammar.Proofs.Match.Survivors

  What is left of the matches that a run has told about, if going back takes away
  the matches at or behind the position that the reader goes back to.

  At every moment the survivors lie in order and side by side, and they hold each
  token that matters between the start and the reader exactly once
  (`TokenStream.Accounts`).  A run keeps this because going back restores the
  survivors of the moment it goes back to (`Setting.Leads.continues`): the matches
  since then begin at or behind the reader of that moment, those before it end
  there.
-/

import Mathlib.Data.List.Basic
import TokenGrammar.Proofs.Match.Consumption
import TokenGrammar.Proofs.Match.History
import TokenGrammar.Proofs.Match.Simulation

namespace TokenGrammar

-- ============================================================================
-- Survivors
-- ============================================================================

/-- What an event makes of the matches before it. -/
def Event.note (entries : List Matched) : Event → List Matched
  | .token matched => entries ++ [matched]
  | .rewind position => entries.filter (·.position < position)
  | _ => entries

/-- The matches that survive some events. -/
def surviving (events : List (Context × Event)) : List Matched :=
  events.foldl (fun entries told => told.2.note entries) []

/-- The survivors that hold tokens of the text. -/
def consumed (events : List (Context × Event)) : List Matched :=
  (surviving events).filter (·.cls != .ending)

/-- Whether a piece of a text lies within another. -/
def Span.holds (outer inner : Span) : Bool :=
  decide (outer.start ≤ inner.start) && decide (inner.stop ≤ outer.stop)

/-- Matches in order, side by side, that hold each token between two positions that
    may not be stepped over exactly once. -/
structure TokenStream.Accounts (stream : TokenStream) (skipLines : Bool) (start position : Nat)
    (entries : List Matched) : Prop where
  increasing : entries.Pairwise (fun before after => before.span.stop ≤ after.span.start)
  solid : ∀ entry ∈ entries, entry.span.start < entry.span.stop
  once : ∀ index, start ≤ index → index < position →
    (stream.get index).isSkippable skipLines = false →
    entries.countP (·.span.holds (stream.get index).span) = 1

variable {σ : Type}

theorem surviving_concat (events : List (Context × Event)) (told : Context × Event) :
    surviving (events ++ [told]) = told.2.note (surviving events) := by
  rw [surviving, List.foldl_append]
  rfl

theorem consumed_concat_enter (events : List (Context × Event)) (context : Context)
    (rule : String) : consumed (events ++ [(context, .enter rule)]) = consumed events := by
  rw [consumed, surviving_concat]
  rfl

theorem consumed_concat_leave (events : List (Context × Event)) (context : Context)
    (rule : String) : consumed (events ++ [(context, .leave rule)]) = consumed events := by
  rw [consumed, surviving_concat]
  rfl

theorem consumed_concat_token (events : List (Context × Event)) (context : Context)
    {matched : Matched} (h : matched.cls ≠ .ending) :
    consumed (events ++ [(context, .token matched)]) = consumed events ++ [matched] := by
  rw [consumed, surviving_concat, Event.note, List.filter_append, consumed]
  have hkept : (matched.cls != .ending) = true := bne_iff_ne.2 h
  rw [List.filter_singleton, hkept, cond_true]

theorem consumed_concat_ending (events : List (Context × Event)) (context : Context)
    {matched : Matched} (h : matched.cls = .ending) :
    consumed (events ++ [(context, .token matched)]) = consumed events := by
  rw [consumed, surviving_concat, Event.note, List.filter_append, consumed]
  have hdropped : (matched.cls != .ending) = false := by rw [h, bne_self_eq_false]
  rw [List.filter_singleton, hdropped, cond_false, List.append_nil]

theorem consumed_concat_rewind (events : List (Context × Event)) (context : Context)
    (position : Nat) :
    consumed (events ++ [(context, .rewind position)]) =
      (consumed events).filter (·.position < position) := by
  rw [consumed, surviving_concat, Event.note, consumed, List.filter_comm]

-- ============================================================================
-- Accounts
-- ============================================================================

namespace TokenStream

variable {stream : TokenStream} {skipLines : Bool} {start position : Nat}
  {entries : List Matched}

theorem accounts_nil (stream : TokenStream) (skipLines : Bool) (start : Nat) :
    stream.Accounts skipLines start start [] :=
  ⟨.nil, fun _ h => (List.not_mem_nil h).elim, fun _ hle hlt => absurd hlt (Nat.not_lt.2 hle)⟩

/-- A match that ends before a token does not hold it. -/
theorem holds_eq_false_of_stop_le {outer inner : Span} (hstop : outer.stop ≤ inner.start)
    (hsolid : inner.start < inner.stop) : outer.holds inner = false := by
  rw [Span.holds, Bool.and_eq_false_iff]
  right
  apply decide_eq_false
  omega

/-- A match that begins behind a token does not hold it. -/
theorem holds_eq_false_of_le_start {outer inner : Span} (hstart : inner.stop ≤ outer.start)
    (hsolid : inner.start < inner.stop) : outer.holds inner = false := by
  rw [Span.holds, Bool.and_eq_false_iff]
  left
  apply decide_eq_false
  omega

/-- Stepping over tokens that do not matter changes nothing. -/
theorem Accounts.skip (h : stream.Accounts skipLines start position entries) {next : Nat}
    (hskip : ∀ index, position ≤ index → index < next →
      (stream.get index).isSkippable skipLines = true) :
    stream.Accounts skipLines start next entries := by
  refine ⟨h.increasing, h.solid, fun index hle hlt hmatters => ?_⟩
  by_cases hbefore : index < position
  · exact h.once index hle hbefore hmatters
  · rw [hskip index (by omega) hlt] at hmatters
    cases hmatters

/-- Matches that end before a token do not hold it. -/
theorem countP_holds_eq_zero {inner : Span}
    (h : ∀ entry ∈ entries, entry.span.stop ≤ inner.start) (hsolid : inner.start < inner.stop) :
    entries.countP (·.span.holds inner) = 0 := by
  rw [List.countP_eq_zero]
  intro entry hentry
  rw [holds_eq_false_of_stop_le (h entry hentry) hsolid]
  exact Bool.false_ne_true

/-- A match at the reader is one more entry. -/
theorem Accounts.take {reader behind : Reader} {matched : Matched}
    (htiles : reader.stream.Tiles)
    (h : reader.stream.Accounts reader.skipLines start reader.position entries)
    (hentries : ∀ entry ∈ entries, entry.span.stop ≤ reader.stream.offset reader.position)
    (hskips : reader.Skips matched.position)
    (hstart : matched.span.start = reader.stream.offset matched.position)
    (hpos : 0 < matched.position)
    (hbehind : reader.Behind matched.position matched.span.stop behind) :
    reader.stream.Accounts reader.skipLines start behind.position (entries ++ [matched]) := by
  have hle := hskips.le
  have hfirst := hbehind.first_lt
  have hlast := hbehind.position_le
  have hsolid : matched.span.start < matched.span.stop := by
    rw [hstart]
    exact Nat.lt_of_lt_of_le (htiles.solid matched.position hpos (by omega))
      (hbehind.stop_le htiles (Nat.le_refl _) hfirst)
  refine ⟨?_, ?_, fun index hfrom hlt hmatters => ?_⟩
  · rw [List.pairwise_append]
    refine ⟨h.increasing, List.pairwise_singleton _ _, fun entry hentry other hother => ?_⟩
    rw [List.mem_singleton.1 hother, hstart]
    exact Nat.le_trans (hentries entry hentry) (htiles.offset_mono hle (by omega))
  · intro entry hentry
    rcases List.mem_append.1 hentry with hentry | hentry
    · exact h.solid entry hentry
    · rw [List.mem_singleton.1 hentry]
      exact hsolid
  · have htoken := htiles.offset_lt_stop (by omega) hmatters
    rw [List.countP_append, List.countP_singleton]
    -- A token that matters is held by an earlier match, or by this one if it is in its row.
    by_cases hbefore : index < reader.position
    · have hstop := htiles.stop_le_offset hbefore (by omega)
      have hmono := htiles.offset_mono hle (by omega)
      rw [holds_eq_false_of_le_start (by omega) htoken, h.once index hfrom hbefore hmatters]
      rfl
    · have hrow : matched.position ≤ index := by
        by_contra hskipped
        rw [hskips.isSkippable index (by omega) (by omega)] at hmatters
        cases hmatters
      have hnone : entries.countP (·.span.holds (reader.stream.get index).span) = 0 := by
        apply countP_holds_eq_zero _ htoken
        intro entry hentry
        exact Nat.le_trans (hentries entry hentry)
          (htiles.offset_mono (Nat.le_of_not_lt hbefore) (by omega))
      have hholds : matched.span.holds (reader.stream.get index).span = true := by
        rw [Span.holds, Bool.and_eq_true, decide_eq_true_eq, decide_eq_true_eq, hstart]
        exact ⟨htiles.offset_mono hrow (by omega), hbehind.stop_le htiles hrow hlt⟩
      rw [hnone, hholds]
      rfl

end TokenStream

-- ============================================================================
-- Runs
-- ============================================================================

/-- The survivors of some events account for what a reader has passed since
    `origin`, and did so after each of the events. -/
structure Reader.Sound (origin reader : Reader) (events : List (Context × Event)) : Prop where
  stream_eq : reader.stream = origin.stream
  skipLines_eq : reader.skipLines = origin.skipLines
  position_le : reader.position ≤ origin.stream.last
  accounts : origin.stream.Accounts origin.skipLines origin.position reader.position
    (consumed events)
  behind : ∀ entry ∈ consumed events, entry.position < reader.position ∧
    entry.span.stop ≤ origin.stream.offset reader.position
  earlier : ∀ index context event, events[index]? = some (context, event) →
    origin.stream.Accounts origin.skipLines origin.position context.position
      (consumed (events.take (index + 1)))

namespace Reader

variable {origin reader : Reader} {events : List (Context × Event)}

theorem sound_start (origin : Reader) (h : origin.position ≤ origin.stream.last) :
    origin.Sound origin [] :=
  ⟨rfl, rfl, h, TokenStream.accounts_nil _ _ _, fun _ hentry => (List.not_mem_nil hentry).elim,
    fun _ _ _ htold => nomatch htold⟩

/-- One more event keeps the account if it accounts for where the reader is now. -/
theorem Sound.tell (h : origin.Sound reader events) {behind : Reader} {context : Context}
    {event : Event} (hcontext : context.position = behind.position)
    (hstream : behind.stream = reader.stream) (hskip : behind.skipLines = reader.skipLines)
    (hposition : behind.position ≤ origin.stream.last)
    (haccounts : origin.stream.Accounts origin.skipLines origin.position behind.position
      (consumed (events ++ [(context, event)])))
    (hbehind : ∀ entry ∈ consumed (events ++ [(context, event)]),
      entry.position < behind.position ∧
        entry.span.stop ≤ origin.stream.offset behind.position) :
    origin.Sound behind (events ++ [(context, event)]) := by
  refine ⟨hstream.trans h.stream_eq, hskip.trans h.skipLines_eq, hposition, haccounts, hbehind,
    fun index context' event' htold => ?_⟩
  by_cases hbefore : index < events.length
  · rw [List.getElem?_append_left hbefore] at htold
    rw [List.take_append_of_le_length hbefore]
    exact h.earlier index context' event' htold
  · rw [List.getElem?_append_right (by omega)] at htold
    have hlast : index - events.length = 0 := by
      by_cases hzero : index - events.length = 0
      · exact hzero
      · rw [List.getElem?_eq_none (by simp; omega)] at htold
        cases htold
    rw [hlast] at htold
    cases htold
    rw [hcontext, List.take_of_length_le (by simp; omega)]
    exact haccounts

/-- A match of the mark at the end holds no token. -/
theorem Sound.tellEnding (h : origin.Sound reader events) (htiles : origin.stream.Tiles)
    {behind : Reader} {context : Context} {matched : Matched}
    (hcontext : context.position = behind.position) (htakes : reader.Takes matched behind)
    (hcls : matched.cls = .ending) (hmatched : behind.position = matched.position)
    (hlast : behind.position = reader.stream.last) :
    origin.Sound behind (events ++ [(context, .token matched)]) := by
  obtain ⟨stream, start, skipLines⟩ := origin
  obtain rfl : reader.stream = stream := h.stream_eq
  obtain rfl : reader.skipLines = skipLines := h.skipLines_eq
  have hskips := htakes.skips
  rw [← hmatched] at hskips
  have hconsumed := consumed_concat_ending events context hcls
  refine h.tell hcontext htakes.stream_eq htakes.skipLines_eq (Nat.le_of_eq hlast) ?_ ?_
  · rw [hconsumed]
    exact h.accounts.skip hskips.isSkippable
  · rw [hconsumed]
    intro entry hentry
    obtain ⟨hbefore, hstop⟩ := h.behind entry hentry
    exact ⟨Nat.lt_of_lt_of_le hbefore hskips.le,
      Nat.le_trans hstop (htiles.offset_mono hskips.le (Nat.le_of_eq hlast))⟩

/-- A match of tokens is one more survivor. -/
theorem Sound.tellMatch (h : origin.Sound reader events) (htiles : origin.stream.Tiles)
    {behind : Reader} {context : Context} {matched : Matched}
    (hcontext : context.position = behind.position) (htakes : reader.Takes matched behind)
    (hcls : matched.cls ≠ .ending) (hpos : 0 < matched.position)
    (hrow : reader.Behind matched.position matched.span.stop behind) :
    origin.Sound behind (events ++ [(context, .token matched)]) := by
  obtain ⟨stream, start, skipLines⟩ := origin
  obtain rfl : reader.stream = stream := h.stream_eq
  obtain rfl : reader.skipLines = skipLines := h.skipLines_eq
  have hle := Nat.le_trans htakes.skips.le (Nat.le_of_lt hrow.first_lt)
  have hfirst := hrow.first_lt
  have htiles : reader.stream.Tiles := htiles
  have haccounts : reader.stream.Accounts reader.skipLines start reader.position
      (consumed events) := h.accounts
  have hconsumed := consumed_concat_token events context hcls
  refine h.tell hcontext htakes.stream_eq htakes.skipLines_eq hrow.position_le ?_ ?_
  · have htaken := haccounts.take htiles (fun entry hentry => (h.behind entry hentry).2)
      htakes.skips htakes.start_eq hpos hrow
    rw [hconsumed]
    exact htaken
  · rw [hconsumed]
    intro entry hentry
    rcases List.mem_append.1 hentry with hentry | hentry
    · obtain ⟨hbefore, hstop⟩ := h.behind entry hentry
      exact ⟨Nat.lt_of_lt_of_le hbefore hle,
        Nat.le_trans hstop (htiles.offset_mono hle hrow.position_le)⟩
    · rw [List.mem_singleton.1 hentry, hrow.stop_eq]
      exact ⟨hfirst, htiles.stop_le_offset (by omega) hrow.position_le⟩

end Reader

/-- What has survived at the second moment is what had survived at the first one, and
    matches that begin where the reader was then or behind it. -/
structure Track.Continues (s t : Track (σ × List (Context × Event))) : Prop where
  position_le : s.reader.position ≤ t.reader.position
  consumed_eq : ∃ since, consumed t.history = consumed s.history ++ since ∧
    ∀ entry ∈ since, s.reader.position ≤ entry.position

namespace Setting

variable {setting : Setting (σ × List (Context × Event))} {origin : Reader}
  {s t u : Track (σ × List (Context × Event))}

theorem continues_of_consumed_eq (hle : s.reader.position ≤ t.reader.position)
    (h : consumed t.history = consumed s.history) : s.Continues t :=
  ⟨hle, [], by rw [h, List.append_nil], fun _ hentry => (List.not_mem_nil hentry).elim⟩

theorem continues_trans (hst : s.Continues t) (htu : t.Continues u) : s.Continues u := by
  obtain ⟨hst_le, before, hbefore, hbefore_le⟩ := hst
  obtain ⟨htu_le, after, hafter, hafter_le⟩ := htu
  refine ⟨Nat.le_trans hst_le htu_le, before ++ after, ?_, fun entry hentry => ?_⟩
  · rw [hafter, hbefore, List.append_assoc]
  · rcases List.mem_append.1 hentry with hentry | hentry
    · exact hbefore_le entry hentry
    · exact Nat.le_trans hst_le (hafter_le entry hentry)

/-- An event that neither tells of a match nor of going back. -/
theorem sound_emit (hrecords : setting.Records) (hs : origin.Sound s.reader s.history)
    {event : Event}
    (hevent : ∀ context, consumed (s.history ++ [(context, event)]) = consumed s.history) :
    let told := (s.emit setting.listener event).2
    origin.Sound told.reader told.history ∧ s.Continues told := by
  intro told
  have hhistory : told.history = s.history ++ [(s.context, event)] := history_emit hrecords event s
  have hconsumed : consumed told.history = consumed s.history := by rw [hhistory, hevent]
  refine ⟨?_, continues_of_consumed_eq (Nat.le_refl _) hconsumed⟩
  rw [hhistory] at hconsumed ⊢
  refine hs.tell rfl rfl rfl hs.position_le ?_ ?_
  · rw [hconsumed]
    exact hs.accounts
  · rw [hconsumed]
    exact hs.behind

theorem sound_terminal (hrecords : setting.Records) (htiles : origin.stream.Tiles)
    (hs : origin.Sound s.reader s.history) {adjacent : Bool} {pattern : Terminal}
    {matched : Matched} {reader : Reader}
    (h : pattern.matchAt adjacent s.reader = .ok (matched, reader)) :
    let told := ((s.withReader reader).emit setting.listener (.token matched)).2
    origin.Sound told.reader told.history ∧ s.Continues told := by
  intro told
  have hhistory : told.history =
      s.history ++ [((s.withReader reader).context, .token matched)] :=
    history_emit hrecords (.token matched) (s.withReader reader)
  have htakes : s.reader.Takes matched reader :=
    Terminal.takes_of_matchAt (hs.stream_eq ▸ htiles) (hs.stream_eq ▸ hs.position_le) h
  have hle := htakes.skips.le
  rcases htakes.ends with ⟨hcls, hmatched, hlast⟩ | ⟨hcls, hpos, hrow⟩
  · have hconsumed : consumed told.history = consumed s.history := by
      rw [hhistory, consumed_concat_ending _ _ hcls]
    refine ⟨?_, continues_of_consumed_eq (hmatched ▸ hle) hconsumed⟩
    rw [hhistory]
    exact hs.tellEnding htiles rfl htakes hcls hmatched hlast
  · have hconsumed : consumed told.history = consumed s.history ++ [matched] := by
      rw [hhistory, consumed_concat_token _ _ hcls]
    refine ⟨?_, Nat.le_trans hle (Nat.le_of_lt hrow.first_lt), [matched], hconsumed, ?_⟩
    · rw [hhistory]
      exact hs.tellMatch htiles rfl htakes hcls hpos hrow
    · intro entry hentry
      rw [List.mem_singleton.1 hentry]
      exact hle

/-- Going back restores the survivors of the moment that the run goes back to. -/
theorem sound_rewind (hrecords : setting.Records) (hs : origin.Sound s.reader s.history)
    (ht : origin.Sound t.reader t.history) (hst : s.Continues t) :
    let back := (t.rewind setting.listener s.reader.checkpoint).2
    origin.Sound back.reader back.history ∧ s.Continues back := by
  intro back
  have hle := hst.position_le
  obtain ⟨since, hsince, hsince_le⟩ := hst.consumed_eq
  have hstream : s.reader.stream = t.reader.stream := hs.stream_eq.trans ht.stream_eq.symm
  have hskip : s.reader.skipLines = t.reader.skipLines :=
    hs.skipLines_eq.trans ht.skipLines_eq.symm
  have hreader : t.reader.seek s.reader.checkpoint = s.reader := by
    simp only [Reader.seek, Reader.checkpoint, ← hstream]
  by_cases hlt : s.reader.position < t.reader.position
  · have hback : back = ((t.withReader s.reader).emit setting.listener
        (.rewind s.reader.position)).2 := by
      rw [← hreader]
      exact rewind_of_lt hlt
    have hhistory : back.history =
        t.history ++ [((t.withReader s.reader).context, .rewind s.reader.position)] := by
      rw [hback, history_emit hrecords]
      rfl
    have hkept : (consumed s.history).filter (·.position < s.reader.position) =
        consumed s.history := by
      rw [List.filter_eq_self]
      exact fun entry hentry => decide_eq_true (hs.behind entry hentry).1
    have hdropped : since.filter (·.position < s.reader.position) = [] := by
      rw [List.filter_eq_nil_iff]
      intro entry hentry
      have := hsince_le entry hentry
      simpa using this
    have hconsumed : consumed back.history = consumed s.history := by
      rw [hhistory, consumed_concat_rewind, hsince, List.filter_append, hkept, hdropped,
        List.append_nil]
    have hposition : back.reader = s.reader := by rw [hback]; rfl
    refine ⟨?_, continues_of_consumed_eq (by rw [hposition]) hconsumed⟩
    rw [hposition]
    rw [hhistory] at hconsumed ⊢
    refine ht.tell rfl hstream hskip hs.position_le ?_ ?_
    · rw [hconsumed]
      exact hs.accounts
    · rw [hconsumed]
      exact hs.behind
  · have hposition : s.reader.position = t.reader.position := by omega
    have hstays : t.reader.seek s.reader.checkpoint = t.reader := by
      simp only [Reader.seek, Reader.checkpoint, hposition, hskip]
    have hback : back = t := by
      calc back = t.withReader (t.reader.seek s.reader.checkpoint) :=
            rewind_of_le (Nat.le_of_not_lt hlt)
        _ = t.withReader t.reader := by rw [hstays]
        _ = t := rfl
    rw [hback]
    exact ⟨ht, hst⟩

/-- A run keeps its account, and what had survived when it came by is restored
    whenever it goes back. -/
theorem Leads.sound (hrecords : setting.Records) (htiles : origin.stream.Tiles)
    (h : setting.Leads s t) (hs : origin.Sound s.reader s.history) :
    origin.Sound t.reader t.history ∧ s.Continues t := by
  induction h with
  | refl => exact ⟨hs, continues_of_consumed_eq (Nat.le_refl _) rfl⟩
  | openRule | closeRule | offer => exact ⟨hs, continues_of_consumed_eq (Nat.le_refl _) rfl⟩
  | trans _ _ ihst ihtu =>
      obtain ⟨ht, hst⟩ := ihst hs
      obtain ⟨hu, htu⟩ := ihtu ht
      exact ⟨hu, continues_trans hst htu⟩
  | enter track rule =>
      exact sound_emit hrecords hs fun context => consumed_concat_enter _ context rule
  | leave track rule =>
      exact sound_emit hrecords hs fun context => consumed_concat_leave _ context rule
  | terminal h => exact sound_terminal hrecords htiles hs h
  | rewind _ ih =>
      obtain ⟨ht, hst⟩ := ih hs
      exact sound_rewind hrecords hs ht hst

end Setting

theorem Ending.atEnd_of_success {ending : Ending} {track : Track σ}
    (h : ending.outcome true track = .success) : track.reader.atEnd = true := by
  cases ending with
  | matched =>
      rw [Ending.outcome, Bool.true_and] at h
      by_cases hend : track.reader.atEnd = true
      · exact hend
      · rw [if_pos (by simp [hend])] at h
        cases h
  | failed failure => cases h
  | aborted abort => cases h

/-- Whatever the rules, the text, the start and the listener are, after every event and
    at the end the matches that have survived lie in order and side by side and hold
    every token that matters between the start and the reader exactly once.  If the
    input has to end where the match does and it matches, they hold all that follow
    the start. -/
theorem RuleTable.matches_account_for_tokens (rules : RuleTable) (options : Options)
    (listener : Listener σ) (memory : σ) (lexer : Lexer) (text : String) (skipLines : Bool)
    (start : Nat) (hstart : start ≤ (lexer.tokenize text).last) :
    let stream := lexer.tokenize text
    let result :=
      rules.matchFrom options listener.recording ⟨stream, start, skipLines⟩ (memory, [])
    (∀ index context event, result.events[index]? = some (context, event) →
      stream.Accounts (!rules.usesLineEnds) start context.position
        (consumed (result.events.take (index + 1)))) ∧
    stream.Accounts (!rules.usesLineEnds) start result.reader.position
      (consumed result.events) ∧
    (options.requireEnd = true → result.outcome = .success →
      stream.Accounts (!rules.usesLineEnds) start stream.last (consumed result.events)) := by
  intro stream result
  let setting : Setting (σ × List (Context × Event)) :=
    ⟨rules, options.recursionLimit, listener.recording⟩
  let origin : Reader := ⟨stream, start, !rules.usesLineEnds⟩
  let passage := setting.matchRoot origin (memory, [])
  have hresult : result =
      ⟨passage.1.outcome options.requireEnd passage.2, passage.2.reader, passage.2.memory⟩ :=
    rules.matchFrom_eq options listener.recording ⟨stream, start, skipLines⟩ (memory, [])
  have hevents : result.events = passage.2.history := by rw [hresult]; rfl
  have hleads := setting.leads_matchRoot origin (memory, [])
  have hsound : origin.Sound passage.2.reader passage.2.history :=
    (hleads.sound ⟨listener, rfl⟩ (lexer.tiles_tokenize text)
      (origin.sound_start hstart)).1
  rw [hevents]
  refine ⟨hsound.earlier, ?_, fun hrequire houtcome => ?_⟩
  · rw [hresult]
    exact hsound.accounts
  · rw [hresult, hrequire] at houtcome
    have hend : passage.2.reader.stream.last ≤ passage.2.reader.significantPosition :=
      of_decide_eq_true (Ending.atEnd_of_success houtcome)
    apply hsound.accounts.skip
    intro index hle hlt
    have hskips := passage.2.reader.skips_significantPosition
    rw [hsound.stream_eq] at hend
    have hskippable := hskips.isSkippable index hle (Nat.lt_of_lt_of_le hlt hend)
    rw [hsound.stream_eq, hsound.skipLines_eq] at hskippable
    exact hskippable

/-- The rule `ROOT := ID*`. -/
def RuleTable.words : RuleTable where
  rules :=
    [⟨rootName, [.terminal ⟨false, false, true, false⟩ .zero (.ofCategory .identifier)], .zero⟩]

/-- Both words of a text are held once by what survives of matching them. -/
theorem RuleTable.matches_account_for_two_words :
    1 ≤ (Lexer.base.tokenize "a b").last ∧
    (RuleTable.words.matchFrom .default Listener.acceptAll.recording
      ⟨Lexer.base.tokenize "a b", 1, true⟩ ((), [])).outcome = .success ∧
    (Lexer.base.tokenize "a b").Accounts true 1 (Lexer.base.tokenize "a b").last
      (consumed (RuleTable.words.matchFrom .default Listener.acceptAll.recording
        ⟨Lexer.base.tokenize "a b", 1, true⟩ ((), [])).events) := by
  have hstart : 1 ≤ (Lexer.base.tokenize "a b").last := by decide +kernel
  have hsuccess : (RuleTable.words.matchFrom .default Listener.acceptAll.recording
      ⟨Lexer.base.tokenize "a b", 1, true⟩ ((), [])).outcome = .success :=
    RuleTable.eq_of_map_matchWithin Result.outcome 20 (by decide +kernel)
  have haccount :=
    RuleTable.words.matches_account_for_tokens .default .acceptAll () .base "a b" true 1 hstart
  exact ⟨hstart, hsuccess, haccount.2.2 rfl hsuccess⟩

end TokenGrammar
