/-
  TokenGrammar.Proofs.Match.Strides

  How far an element gets.  Most elements do not look at what stands between the
  significant tokens (`Node.ignoresSpacing`).  Such an element stays where it is or takes
  significant tokens, unless the end of the input stands somewhere in it
  (`RuleTable.MayEnd`): that takes no token, but it leaves what stands in front of the
  mark at the end behind.

  Main statement: `Setting.strides_of_matchNode`.
-/

import TokenGrammar.Proofs.Match.Ahead
import TokenGrammar.Proofs.Match.Effects

namespace TokenGrammar

-- ============================================================================
-- Elements that ignore spacing
-- ============================================================================

/-- Whether an element does not look at what stands between the significant tokens: it is
    not to be adjacent to what comes before it, and it is neither a number nor a string,
    whose tokens have to touch each other, nor the end of a line. -/
def Node.ignoresSpacing (node : Node) : Bool :=
  !node.modifiers.adjacent &&
    match node with
    | .terminal _ _ (.ofCategory .number) => false
    | .terminal _ _ (.ofCategory .string) => false
    | .terminal _ _ (.ofCategory .endOfLine) => false
    | _ => true

/-- Such a terminal is a single token, the next significant one. -/
theorem Node.matchAt_of_ignoresSpacing {modifiers : Modifiers} {span : Span} {pattern : Terminal}
    (h : (Node.terminal modifiers span pattern).ignoresSpacing = true) (reader : Reader) :
    pattern.matchAt modifiers.adjacent reader =
      if pattern.holds reader.peek then
        .ok (⟨pattern.classOf reader.peek, reader.peek.text, reader.peek.span,
          reader.significantPosition⟩, reader.read.2)
      else .error ⟨reader.significantPosition, .expected (.terminal pattern) reader.peek⟩ := by
  obtain ⟨hadjacent, hpattern⟩ := Bool.and_eq_true_iff.1 h
  rw [Bool.not_eq_true'] at hadjacent
  rw [show modifiers.adjacent = false from hadjacent]
  unfold Terminal.matchAt
  split
  · cases hpattern
  · cases hpattern
  · rfl

namespace RuleTable

/-- Whether no element of the rules looks at what stands between the significant tokens. -/
def ignoresSpacing (rules : RuleTable) : Bool :=
  rules.visits.all fun (_, node) => node.ignoresSpacing

variable {rules : RuleTable}

theorem Has.ignoresSpacing {node : Node} (hhas : rules.Has node)
    (h : rules.ignoresSpacing = true) : node.ignoresSpacing = true := by
  obtain ⟨name, hmem⟩ := hhas
  exact List.all_eq_true.1 h _ hmem

/-- Such rules do not ask for line ends. -/
theorem usesLineEnds_of_ignoresSpacing (h : rules.ignoresSpacing = true) :
    rules.usesLineEnds = false := by
  rw [usesLineEnds, List.any_eq_false]
  rintro ⟨name, node⟩ hmem hline
  obtain ⟨-, hnode⟩ := Bool.and_eq_true_iff.1 (Has.ignoresSpacing ⟨name, hmem⟩ h)
  dsimp only at hline
  split at hline
  · cases hnode
  · cases hline

/-- Whether the end of the input stands in an element, or in a rule that it refers to. -/
inductive MayEnd (rules : RuleTable) : Node → Prop where
  | terminal (modifiers : Modifiers) (span : Span) :
      MayEnd rules (.terminal modifiers span (.ofCategory .endOfInput))
  | child {node inner : Node} (hinner : inner ∈ node.children) (h : MayEnd rules inner) :
      MayEnd rules node
  | rule {modifiers : Modifiers} {span : Span} {name : String} {nodes : List Node} {inner : Node}
      (hnodes : rules.nodes? name = some nodes) (hinner : inner ∈ nodes)
      (h : MayEnd rules inner) : MayEnd rules (.ref modifiers span name)

/-- The mark at the end is all that the end of the input matches, and nothing else does. -/
theorem mayEnd_of_holds {modifiers : Modifiers} {span : Span} {pattern : Terminal} {token : Token}
    (h : pattern.holds token = true) (hcls : token.cls = .ending) :
    rules.MayEnd (.terminal modifiers span pattern) := by
  unfold Terminal.holds isInteger at h
  rw [hcls] at h
  split at h
  all_goals first | exact .terminal modifiers span | cases h

/-- That an element stands in the rules, and that the end of the input stands in it only if
    it may, passes on to what stands in the element. -/
theorem passes_has_mayEnd (rules : RuleTable) (mayEnd : Prop) :
    rules.Passes fun node => rules.Has node ∧ (rules.MayEnd node → mayEnd) where
  child h hinner := ⟨rules.passes_has.child h.1 hinner, fun hend => h.2 (.child hinner hend)⟩
  rule h hnodes inner hinner :=
    ⟨rules.passes_has.rule h.1 hnodes inner hinner, fun hend => h.2 (.rule hnodes hinner hend)⟩

end RuleTable

-- ============================================================================
-- Strides
-- ============================================================================

/-- How a track in a stream leads to another one, with the same rules open.  It gets past
    significant tokens, or if it may, to the end, or nowhere. -/
structure Strides {σ : Type} (stream : TokenStream) (mayEnd : Prop) (s t : Track σ) : Prop where
  reads : t.reader.Reads stream
  scopes_eq : t.scopes = s.scopes
  le : s.reader.position ≤ t.reader.position
  further : t.reader.position = s.reader.position ∨
    (stream.ahead t.reader.position).length < (stream.ahead s.reader.position).length ∨
    mayEnd ∧ t.reader.position = stream.last

namespace Strides

variable {σ : Type} {stream : TokenStream} {mayEnd : Prop} {s t u : Track σ}

/-- Nowhere. -/
theorem of_eq (hreads : s.reader.Reads stream) (hreader : t.reader = s.reader)
    (hscopes : t.scopes = s.scopes) : Strides stream mayEnd s t :=
  ⟨hreader ▸ hreads, hscopes, hreader ▸ Nat.le_refl _, hreader ▸ .inl rfl⟩

theorem trans (hst : Strides stream mayEnd s t) (htu : Strides stream mayEnd t u) :
    Strides stream mayEnd s u := by
  have hle := hst.le.trans htu.le
  refine ⟨htu.reads, htu.scopes_eq.trans hst.scopes_eq, hle, ?_⟩
  rcases htu.further with heq | hless | hend
  · rw [heq]
    exact hst.further
  · rcases hst.further with heq | hless' | ⟨hmay, hlast⟩
    · exact .inr (.inl (heq ▸ hless))
    · exact .inr (.inl (hless.trans hless'))
    · exact .inr (.inr ⟨hmay, Nat.le_antisymm htu.reads.le_last (hlast ▸ htu.le)⟩)
  · exact .inr (.inr hend)

/-- Reading the next token, where only what may end takes the mark at the end. -/
theorem read (hreads : s.reader.Reads stream)
    (hend : s.reader.significantPosition = stream.last → mayEnd) :
    Strides stream mayEnd s (s.withReader s.reader.read.2) := by
  obtain ⟨hread, hposition⟩ := hreads.position_read
  have hle := s.reader.le_significantPosition
  rcases hreads.cases with ⟨hlt, -, hcons⟩ | ⟨heq, -⟩
  · rw [if_pos hlt] at hposition
    refine ⟨hread, rfl, ?_, .inr (.inl ?_)⟩
    · show s.reader.position ≤ s.reader.read.2.position
      omega
    · show (stream.ahead s.reader.read.2.position).length < _
      rw [hposition, hcons, List.length_cons]
      exact Nat.lt_succ_self _
  · rw [if_neg (by omega), heq] at hposition
    refine ⟨hread, rfl, ?_, .inr (.inr ⟨hend heq, hposition⟩)⟩
    show s.reader.position ≤ s.reader.read.2.position
    omega

end Strides

namespace Setting

/-- To stride in a stream, if begun there. -/
def striding (stream : TokenStream) (mayEnd : Prop) : Effect Unit where
  leads s t := s.reader.Reads stream → Strides stream mayEnd s t
  stops _ _ _ := True

variable {setting : Setting Unit} {stream : TokenStream}

theorem tells_striding (h : setting.listener = .acceptAll) (mayEnd : Prop) :
    setting.Tells (striding stream mayEnd) where
  refl _ hreads := .of_eq hreads rfl rfl
  trans hst htu hreads := (hst hreads).trans (htu (hst hreads).reads)
  halt _ _ := trivial
  offer _ _ _ hreads := .of_eq hreads rfl rfl
  rewind {s t} hst := by
    rw [wentBack_acceptAll h]
    intro hreads
    have hstrides := hst hreads
    refine .of_eq hreads ?_ hstrides.scopes_eq
    rw [Track.reader_withReader, Reader.seek, hstrides.reads.stream_eq, ← hreads.stream_eq]
    rfl
  tell s event := by
    rw [told_acceptAll h]
    exact fun hreads => .of_eq hreads rfl rfl

/-- Matching elements that ignore spacing strides. -/
theorem upholds_striding (h : setting.listener = .acceptAll)
    (hspacing : setting.rules.ignoresSpacing = true) (hmarked : stream.Marked) (mayEnd : Prop) :
    setting.Upholds (fun node => setting.rules.Has node ∧ (setting.rules.MayEnd node → mayEnd))
      (striding stream mayEnd) where
  toCarries := (tells_striding h mayEnd).toCarries
  token {s modifiers span pattern matched reader} hallowed hmatch := by
    rw [told_acceptAll h]
    intro hreads
    rw [Node.matchAt_of_ignoresSpacing (hallowed.1.ignoresSpacing hspacing)] at hmatch
    split at hmatch
    · next hholds =>
      cases hmatch
      refine .read hreads fun hlast => hallowed.2 (RuleTable.mayEnd_of_holds hholds ?_)
      rw [Reader.peek, hreads.stream_eq, hlast, TokenStream.get_of_last_le (Nat.le_refl _)]
      exact hmarked.ending
    · cases hmatch
  rule s _ _ name _ _ hbody := by
    obtain ⟨passage, hpassage, hopened⟩ := (tells_striding h mayEnd).matchRule name hbody s
    have hclosed : ∀ {t : Track Unit}, (striding stream mayEnd).leads (s.openRule name) t →
        (striding stream mayEnd).leads s t.closeRule := by
      intro t ht hreads
      obtain ⟨hreads, hscopes, hle, hfurther⟩ := ht hreads
      exact ⟨hreads, congrArg List.tail hscopes, hle, hfurther⟩
    rw [hpassage]
    rcases passage with ⟨_ | failure | abort, t⟩
    · exact hclosed hopened
    · exact hclosed hopened
    · trivial
  undefinedRule _ _ _ _ _ _ := trivial
  recursionLimit _ := trivial
  fatalElement _ _ _ _ _ := trivial
  emptyRepetition _ _ _ _ := trivial

/-- An element that matches gets past significant tokens, or to the end if the end of the
    input stands in it, or nowhere. -/
theorem strides_of_matchNode (h : setting.listener = .acceptAll)
    (hspacing : setting.rules.ignoresSpacing = true) (hmarked : stream.Marked) {room : Nat}
    {node : Node} (hhas : setting.rules.Has node) {taken taken' : List Nat} {s t : Track Unit}
    (hreads : s.reader.Reads stream)
    (hmatch : setting.matchNode room node taken s = ((.matched, t), taken')) :
    Strides stream (setting.rules.MayEnd node) s t := by
  have hholds := (upholds_striding h hspacing hmarked (setting.rules.MayEnd node)).matchNode
    (setting.rules.passes_has_mayEnd _) room ⟨hhas, id⟩ taken s
  rw [hmatch] at hholds
  exact hholds hreads

end Setting

end TokenGrammar
