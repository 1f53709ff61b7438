/-
  TokenGrammar.Proofs.Grammar.Quoting

  What stands between quotes, and what it stands for.  A printed literal is not
  escaped, so it comes back as it was only if the lexer stops at the quote that was
  put behind it and nothing before that quote is an escape.

  Main statements: this is so for every plain text (`payload_of_isPlain`), and for no
  other (`isPlain_of_payload`).
-/

import Mathlib.Data.List.Count
import TokenGrammar.Grammar.Draft
import TokenGrammar.Lexer.Lexeme

namespace TokenGrammar

-- ============================================================================
-- Escapes
-- ============================================================================

theorem unescape_cons {c : Char} (h : c ≠ '\\') (rest : List Char) :
    unescape (c :: rest) = c :: unescape rest := by
  rw [unescape]
  · rintro rfl
    exact absurd rfl h
  · rintro _ rfl
    exact absurd rfl h
  · rintro _ rfl
    exact absurd rfl h
  · rintro _ _ rfl
    exact absurd rfl h

theorem unescape_eq_self {text : List Char} (h : '\\' ∉ text) : unescape text = text := by
  induction text with
  | nil => rfl
  | cons c rest ih =>
      rw [List.mem_cons, not_or] at h
      rw [unescape_cons (Ne.symm h.1), ih h.2]

theorem length_unescape_le (text : List Char) : (unescape text).length ≤ text.length := by
  fun_induction unescape text with
  | case1 => exact Nat.le_refl _
  | case2 => exact Nat.le_refl _
  | case3 rest ih => simp only [List.length_cons]; omega
  | case4 rest ih => simp only [List.length_cons]; omega
  | case5 c rest _ _ ih => simp only [List.length_cons]; omega
  | case6 c rest _ _ _ _ ih => simp only [List.length_cons]; omega

theorem unescape_ne_nil {text : List Char} (h : text ≠ []) : unescape text ≠ [] := by
  fun_cases unescape text with
  | case1 => exact absurd rfl h
  | case2 => exact List.cons_ne_nil _ _
  | case3 => exact List.cons_ne_nil _ _
  | case4 => exact List.cons_ne_nil _ _
  | case5 => exact List.cons_ne_nil _ _
  | case6 => exact List.cons_ne_nil _ _

/-- Escapes stand for what they hold, for line feeds and for tabs. -/
theorem mem_of_mem_unescape {text : List Char} {c : Char} (h : c ∈ unescape text) :
    c ∈ text ∨ c = '\n' ∨ c = '\t' := by
  fun_induction unescape text with
  | case1 => cases h
  | case2 => exact .inl h
  | case3 rest ih => grind
  | case4 rest ih => grind
  | case5 next rest _ _ ih => grind
  | case6 next rest _ _ _ _ ih => grind

/-- No escape makes or loses a quote. -/
theorem count_unescape {quote : Char} (h : quote ∉ ['\\', 'n', 't', '\n', '\t'])
    (text : List Char) : (unescape text).count quote = text.count quote := by
  simp only [List.mem_cons, List.not_mem_nil, or_false, not_or] at h
  fun_induction unescape text with
  | case1 => rfl
  | case2 => rfl
  | case3 rest ih => grind
  | case4 rest ih => grind
  | case5 next rest _ _ ih => grind
  | case6 next rest _ _ _ _ ih => grind

-- ============================================================================
-- Payloads
-- ============================================================================

/-- What a string holds does not run over a line end. -/
theorem isLineBreak_of_mem_payload {quote : Char} {text : List Char} {c : Char}
    (h : c ∈ (payload quote text).1) : isLineBreak c = false := by
  fun_induction payload quote text with
  | case1 => cases h
  | case2 =>
      rw [List.mem_singleton.1 h]
      decide
  | case3 next rest hbreak =>
      rw [List.mem_singleton.1 h]
      decide
  | case4 next rest hbreak held left heq ih =>
      rw [heq] at ih
      rcases List.mem_cons.1 h with rfl | h
      · decide
      · rcases List.mem_cons.1 h with rfl | h
        · exact Bool.eq_false_iff.2 hbreak
        · exact ih h
  | case5 => cases h
  | case6 next rest _ hstop held left heq ih =>
      rw [heq] at ih
      rcases List.mem_cons.1 h with rfl | h
      · rw [Bool.or_eq_true, not_or] at hstop
        exact Bool.eq_false_iff.2 hstop.1
      · exact ih h

/-- A string stops at the end of the text, at a line break or at its quote. -/
theorem payload_stops (quote : Char) (text : List Char) :
    ∀ c ∈ (payload quote text).2.head?, isLineBreak c = true ∨ c = quote := by
  fun_induction payload quote text with
  | case1 =>
      intro c h
      cases h
  | case2 =>
      intro c h
      cases h
  | case3 next rest hbreak =>
      intro c h
      rw [← Option.some.inj h]
      exact .inl hbreak
  | case4 next rest _ held left heq ih =>
      rw [heq] at ih
      exact ih
  | case5 next rest _ hstop =>
      intro c h
      rw [← Option.some.inj h]
      rw [Bool.or_eq_true, beq_iff_eq] at hstop
      exact hstop
  | case6 next rest _ _ held left heq ih =>
      rw [heq] at ih
      exact ih

/-- A closed string in which escapes make no difference holds no escapes. -/
theorem not_mem_of_unescape_payload {quote : Char} {text held left : List Char}
    (hquote : isLineBreak quote = false) (h : payload quote text = (held, quote :: left))
    (hself : unescape held = held) : '\\' ∉ held ∧ quote ∉ held := by
  fun_induction payload quote text generalizing held with
  | case1 => cases h
  | case2 => cases h
  | case3 next rest hbreak =>
      obtain ⟨-, hleft⟩ := Prod.mk.inj h
      rw [(List.cons.inj hleft).1, hquote] at hbreak
      cases hbreak
  | case4 next rest _ inner left' heq ih =>
      -- An escape makes the text shorter.
      exfalso
      obtain ⟨rfl, -⟩ := Prod.mk.inj h
      have hlength := congrArg List.length hself
      have hinner := length_unescape_le inner
      unfold unescape at hlength
      split at hlength <;> simp only [List.length_cons] at hlength <;> grind
  | case5 =>
      obtain ⟨rfl, -⟩ := Prod.mk.inj h
      exact ⟨List.not_mem_nil, List.not_mem_nil⟩
  | case6 next rest hnext hstop inner left' heq ih =>
      obtain ⟨rfl, rfl⟩ := Prod.mk.inj h
      rw [unescape_cons hnext] at hself
      rw [Bool.or_eq_true, beq_iff_eq, not_or] at hstop
      obtain ⟨hescape, hfree⟩ := ih heq (List.cons.inj hself).2
      rw [List.mem_cons, List.mem_cons, not_or, not_or]
      exact ⟨⟨Ne.symm hnext, hescape⟩, Ne.symm hstop.2, hfree⟩

/-- Without escapes, quotes and line ends, a text between quotes is all they hold. -/
theorem payload_eq {quote : Char} (hquote : quote ≠ '\\') {text : List Char}
    (hescape : '\\' ∉ text) (hfree : quote ∉ text)
    (hbreak : ∀ c ∈ text, isLineBreak c = false) (rest : List Char) :
    payload quote (text ++ quote :: rest) = (text, quote :: rest) := by
  induction text with
  | nil =>
      rw [List.nil_append, payload]
      · rw [beq_self_eq_true, Bool.or_true]
        rfl
      · exact hquote
  | cons c text ih =>
      rw [List.mem_cons, not_or] at hescape hfree
      have hc : (isLineBreak c || c == quote) = false := by
        rw [hbreak c List.mem_cons_self, Bool.false_or, beq_eq_false_iff_ne]
        exact Ne.symm hfree.1
      rw [List.cons_append, payload]
      · rw [hc, ih hescape.2 hfree.2 fun c h => hbreak c (List.mem_cons_of_mem _ h)]
        rfl
      · exact Ne.symm hescape.1

-- ============================================================================
-- Printed literals
-- ============================================================================

/-- The characters that escapes are made of or stand for are no quotes. -/
theorem not_mem_of_mem_literalQuotes {quote : Char} (h : quote ∈ literalQuotes) :
    quote ∉ ['\\', 'n', 't', '\n', '\t'] := by
  rcases List.mem_cons.1 h with rfl | h
  · decide
  · rw [List.mem_singleton.1 h]
    decide

theorem isLineBreak_of_mem_literalQuotes {quote : Char} (h : quote ∈ literalQuotes) :
    isLineBreak quote = false := by
  rcases List.mem_cons.1 h with rfl | h
  · decide
  · rw [List.mem_singleton.1 h]
    decide

/-- The quote that a literal is printed with. -/
def quoteOf (text : String) : Char := if text.toList.contains '"' then '\'' else '"'

/-- Whether a literal can be printed as it is: it holds no backslash, no line feed and
    not both quotes. -/
structure IsPlain (text : String) : Prop where
  backslash : '\\' ∉ text.toList
  lineFeed : '\n' ∉ text.toList
  quotes : ¬ ('"' ∈ text.toList ∧ '\'' ∈ text.toList)

instance (text : String) : Decidable (IsPlain text) :=
  decidable_of_iff ('\\' ∉ text.toList ∧ '\n' ∉ text.toList ∧
      ¬ ('"' ∈ text.toList ∧ '\'' ∈ text.toList))
    ⟨fun h => ⟨h.1, h.2.1, h.2.2⟩, fun h => ⟨h.backslash, h.lineFeed, h.quotes⟩⟩

theorem toList_shown_literal (text : String) :
    (Terminal.shown (.literal text)).toList = quoteOf text :: (text.toList ++ [quoteOf text]) := by
  unfold Terminal.shown quoteOf
  dsimp only
  split
  · simp
  · simp

theorem quoteOf_mem (text : String) : quoteOf text ∈ literalQuotes := by
  unfold quoteOf
  split
  · decide
  · decide

/-- A plain text does not hold the quote that it is printed with. -/
theorem IsPlain.quoteOf_not_mem {text : String} (h : IsPlain text) :
    quoteOf text ∉ text.toList := by
  unfold quoteOf
  split
  · next hdouble => exact fun hsingle => h.quotes ⟨List.contains_iff_mem.1 hdouble, hsingle⟩
  · next hdouble => exact fun hmem => hdouble (List.contains_iff_mem.2 hmem)

/-- A plain text comes back as it was. -/
theorem payload_of_isPlain {text : String} (h : IsPlain text)
    (hbreak : ∀ c ∈ text.toList, isLineBreak c = true → c = '\n') (rest : List Char) :
    payload (quoteOf text) (text.toList ++ quoteOf text :: rest) =
      (text.toList, quoteOf text :: rest) := by
  apply payload_eq _ h.backslash h.quoteOf_not_mem
  · intro c hc
    apply Bool.eq_false_iff.2
    intro hline
    rw [hbreak c hc hline] at hc
    exact h.lineFeed hc
  · intro heq
    exact not_mem_of_mem_literalQuotes (quoteOf_mem text) (heq ▸ List.mem_cons_self)

/-- Only a plain text comes back as it was. -/
theorem isPlain_of_payload {text : String} {rest held left : List Char}
    (h : payload (quoteOf text) (text.toList ++ quoteOf text :: rest) =
      (held, quoteOf text :: left)) (hsame : unescape held = text.toList) : IsPlain text := by
  have hquote := quoteOf_mem text
  have hwhole := append_payload (quoteOf text) (text.toList ++ quoteOf text :: rest)
  rw [h] at hwhole
  -- What the string holds is as long as the text, so it begins with it; more than the
  -- text would hold one more quote.
  have hlength := length_unescape_le held
  rw [hsame] at hlength
  obtain ⟨more, hheld⟩ : ∃ more, held = text.toList ++ more := by
    have hheldPrefix : held <+: text.toList ++ quoteOf text :: rest := ⟨_, hwhole⟩
    have htextPrefix := List.prefix_append text.toList (quoteOf text :: rest)
    obtain ⟨more, hmore⟩ := List.prefix_of_prefix_length_le htextPrefix hheldPrefix hlength
    exact ⟨more, hmore.symm⟩
  have hmore : more = [] := by
    by_contra hne
    obtain ⟨c, behind, rfl⟩ := List.exists_cons_of_ne_nil hne
    rw [hheld, List.append_assoc, List.append_cancel_left_eq] at hwhole
    have hc : c = quoteOf text := (List.cons.inj hwhole).1
    have hcount := count_unescape (not_mem_of_mem_literalQuotes hquote) held
    rw [hsame, hheld, hc, List.count_append, List.count_cons_self] at hcount
    omega
  rw [hmore, List.append_nil] at hheld
  rw [hheld] at h hsame
  obtain ⟨hescape, hfree⟩ :=
    not_mem_of_unescape_payload (isLineBreak_of_mem_literalQuotes hquote) h hsame
  refine ⟨hescape, fun hline => ?_, fun ⟨hdouble, hsingle⟩ => ?_⟩
  · have hheldLine : '\n' ∈ (payload (quoteOf text) (text.toList ++ quoteOf text :: rest)).1 := by
      rw [h]
      exact hline
    exact absurd (isLineBreak_of_mem_payload hheldLine) (by decide)
  · apply hfree
    rw [quoteOf, if_pos (List.contains_iff_mem.2 hdouble)]
    exact hsingle

end TokenGrammar
