/-
  TokenGrammar.Proofs.Lexer.Seams

  What a line feed and more text behind a text do to its lexemes: nothing, except that a
  carriage return at its end, if it is a lexeme by itself, becomes part of the line end, and
  that a backslash at its end continues the line (`Lexer.exists_seam`).  So a text that ends
  with neither of them has the same lexemes in front of a line feed (`Lexer.lexemes_joined`).
-/

import Mathlib.Data.List.Infix
import TokenGrammar.Proofs.Lexer.Lines

namespace TokenGrammar

-- ============================================================================
-- Line ends
-- ============================================================================

theorem lineEnd?_append_of_some {text taken rest : List Char}
    (h : lineEnd? text = some (taken, rest)) (more : List Char) :
    lineEnd? (text ++ more) = some (taken, rest ++ more) := by
  unfold lineEnd? at h
  split at h
  · cases h
    rfl
  · cases h
    rfl
  · cases h

/-- What follows a text makes no line end of it, unless it is a carriage return. -/
theorem lineEnd?_append_of_none {text : List Char} (h : lineEnd? text = none) (hne : text ≠ [])
    (hreturn : text ≠ ['\r']) (more : List Char) : lineEnd? (text ++ more) = none := by
  obtain ⟨c, rest, rfl⟩ := List.exists_cons_of_ne_nil hne
  have hfeed : c ≠ '\n' := by
    rintro rfl
    cases h
  by_cases hc : c = '\r'
  · subst hc
    rcases rest with _ | ⟨next, rest⟩
    · exact absurd rfl hreturn
    · rw [List.cons_append, List.cons_append, lineEnd?]
      · rintro _ ⟨⟩
      · rintro _ ⟨⟩
        cases h
  · exact lineEnd?_eq_none_of_ne hfeed hc _

theorem length_lt_of_lineEnd? {text taken rest : List Char}
    (h : lineEnd? text = some (taken, rest)) : rest.length < text.length := by
  obtain ⟨hwhole, hne⟩ := append_of_lineEnd? h
  have hpos := List.length_pos_iff.2 hne
  rw [← hwhole, List.length_append]
  omega

-- ============================================================================
-- Seams
-- ============================================================================

/-- What a line feed behind it makes something else of, if a pass of a lexer begins there,
    and the text with nothing in it. -/
def seams : List (List Char) := [[], ['\r'], ['\\'], ['\\', '\r']]

namespace Lexer

/-- Whether no registered word, nor what begins a comment, holds a line feed. -/
def HoldsNoFeed (lexer : Lexer) : Prop :=
  ∀ word ∈ lexer.symbols ++ lexer.keywords ++ lexer.lineComment.toList, '\n' ∉ word.toList

instance (lexer : Lexer) : Decidable lexer.HoldsNoFeed :=
  List.decidableBAll (fun word : String => '\n' ∉ word.toList) _

theorem HoldsNoFeed.stopsAt {lexer : Lexer} (hfeed : lexer.HoldsNoFeed) (rest : List Char) :
    lexer.StopsAt ('\n' :: rest) where
  atBreak := .cons (by decide) rest
  not_mem := by
    rintro word hword _ ⟨⟩
    exact hfeed word hword

/-- The lexemes at the beginning of a text are the same whether a line feed stands behind
    the text or not.  What is left of the text is `tail`. -/
structure Leaves (lexer : Lexer) (text : List Char) (front : List Lexeme) (tail : List Char) :
    Prop where
  suffix : tail <:+ text
  lexemes_eq : lexer.lexemes text = front ++ lexer.lexemes tail
  lexemes_feed_eq (more : List Char) :
    lexer.lexemes (text ++ '\n' :: more) = front ++ lexer.lexemes (tail ++ '\n' :: more)

namespace Leaves

variable {lexer : Lexer} {text rest tail : List Char} {front back : List Lexeme}

theorem refl (lexer : Lexer) (text : List Char) : lexer.Leaves text [] text :=
  ⟨List.suffix_refl text, rfl, fun _ => rfl⟩

theorem trans (h : lexer.Leaves text front rest) (hrest : lexer.Leaves rest back tail) :
    lexer.Leaves text (front ++ back) tail where
  suffix := hrest.suffix.trans h.suffix
  lexemes_eq := by rw [h.lexemes_eq, hrest.lexemes_eq, List.append_assoc]
  lexemes_feed_eq more := by rw [h.lexemes_feed_eq, hrest.lexemes_feed_eq, List.append_assoc]

end Leaves

variable {lexer : Lexer}

theorem leaves_lineEnd {text taken rest : List Char} (h : lineEnd? text = some (taken, rest)) :
    lexer.Leaves text [⟨.line, taken, true⟩] rest where
  suffix := ⟨taken, (append_of_lineEnd? h).1⟩
  lexemes_eq := lexer.lexemes_lineEnd_append h
  lexemes_feed_eq _ := lexer.lexemes_lineEnd_append (lineEnd?_append_of_some h _)

theorem leaves_continuation {text taken rest : List Char}
    (h : lineEnd? text = some (taken, rest)) :
    lexer.Leaves ('\\' :: text) [⟨.space, '\\' :: taken, true⟩] rest where
  suffix := ⟨'\\' :: taken, congrArg ('\\' :: ·) (append_of_lineEnd? h).1⟩
  lexemes_eq := lexer.lexemes_continuation_append h
  lexemes_feed_eq _ := lexer.lexemes_continuation_append (lineEnd?_append_of_some h _)

/-- Blanks stay a space in front of a line feed, but for a single carriage return. -/
theorem leaves_blanks {run rest : List Char} (hne : run ≠ []) (hrun : ∀ c ∈ run, isBlank c = true)
    (hrest : ∀ c ∈ rest.head?, isBlank c = false) (hline : lineEnd? (run ++ rest) = none)
    (hreturn : run ++ rest ≠ ['\r']) :
    lexer.Leaves (run ++ rest) [⟨.space, run, false⟩] rest where
  suffix := List.suffix_append run rest
  lexemes_eq := lexer.lexemes_blanks_append hne hrun hrest hline
  lexemes_feed_eq more := by
    have hrest' : ∀ c ∈ (rest ++ '\n' :: more).head?, isBlank c = false := by
      rcases rest with _ | ⟨next, rest⟩
      · rintro _ ⟨⟩
        decide
      · rintro _ ⟨⟩
        exact hrest next rfl
    have hline' := lineEnd?_append_of_none hline (List.append_ne_nil_of_left_ne_nil hne _) hreturn
      ('\n' :: more)
    rw [List.append_assoc] at hline' ⊢
    exact lexer.lexemes_blanks_append hne hrun hrest' hline'

/-- What is taken off a bare text is taken off it in front of a line feed. -/
theorem leaves_bare (hfeed : lexer.HoldsNoFeed) {c : Char} {text : List Char}
    (hbare : ∀ more, IsBare c (text ++ '\n' :: more)) :
    lexer.Leaves (c :: text) (lexer.scan c text).lexemes (lexer.scan c text).rest where
  suffix := ⟨_, (lexer.takes_scan c text).whole⟩
  lexemes_eq := lexer.lexemes_cons c text
  lexemes_feed_eq more := lexer.lexemes_bare_append (hfeed.stopsAt more) (hbare more)

/-- As long as more of a text is left than a seam, the next pass does not look behind it. -/
theorem exists_leaves (hfeed : lexer.HoldsNoFeed) {text : List Char} (h : text ∉ seams) :
    ∃ front rest, lexer.Leaves text front rest ∧ rest.length < text.length := by
  simp only [seams, List.mem_cons, List.not_mem_nil, or_false, not_or] at h
  obtain ⟨hnil, hreturn, hbackslash, hcontinues⟩ := h
  obtain ⟨c, text, rfl⟩ := List.exists_cons_of_ne_nil hnil
  rcases hline : lineEnd? (c :: text) with _ | ⟨taken, rest⟩
  swap
  · exact ⟨_, rest, leaves_lineEnd hline, length_lt_of_lineEnd? hline⟩
  by_cases hblank : isBlank c = true
  · obtain ⟨run, rest, hsplit, hne, hrun, hrest⟩ := exists_blanks hblank text
    rw [hsplit] at hline hreturn ⊢
    have hpos := List.length_pos_iff.2 hne
    refine ⟨_, rest, leaves_blanks hne hrun hrest hline hreturn, ?_⟩
    rw [List.length_append]
    omega
  by_cases hcontinued : c = '\\' ∧ lineEnd? text ≠ none
  · obtain ⟨rfl, hsome⟩ := hcontinued
    obtain ⟨⟨taken, rest⟩, hend⟩ := Option.ne_none_iff_exists'.1 hsome
    have hshorter := length_lt_of_lineEnd? hend
    exact ⟨_, rest, leaves_continuation hend, Nat.lt_succ_of_lt hshorter⟩
  have hspace : Unicode.isWhiteSpace c = false := by
    refine isWhiteSpace_eq_false_of_isBlank (Bool.eq_false_iff.2 hblank) ?_
    rintro rfl
    cases hline
  have hnone : c = '\\' → lineEnd? text = none := fun hc =>
    Decidable.byContradiction fun hsome => hcontinued ⟨hc, hsome⟩
  have hbare : ∀ more, IsBare c (text ++ '\n' :: more) := by
    refine fun more => ⟨hspace, fun hc => lineEnd?_append_of_none (hnone hc) ?_ ?_ _⟩
    · rintro rfl
      exact hbackslash (by rw [hc])
    · rintro rfl
      exact hcontinues (by rw [hc])
  exact ⟨_, _, leaves_bare hfeed hbare, (lexer.takes_scan c text).length_rest_lt⟩

/-- A line feed behind a text changes the lexemes of a seam at its end at most. -/
theorem exists_seam (hfeed : lexer.HoldsNoFeed) (text : List Char) :
    ∃ front, ∃ tail ∈ seams, lexer.Leaves text front tail := by
  induction hlength : text.length using Nat.strong_induction_on generalizing text with
  | _ length ih =>
  subst hlength
  by_cases hseam : text ∈ seams
  · exact ⟨[], text, hseam, .refl lexer text⟩
  · obtain ⟨front, rest, hleaves, hshorter⟩ := exists_leaves hfeed hseam
    obtain ⟨back, tail, htail, hrest⟩ := ih _ hshorter rest rfl
    exact ⟨front ++ back, tail, htail, hleaves.trans hrest⟩

/-- The lexemes of a text that ends with neither a backslash nor a carriage return, in front
    of a line feed and more text: they are those of both texts, with a line end between
    them. -/
theorem lexemes_joined (hfeed : lexer.HoldsNoFeed) {text : List Char}
    (hend : ∀ c ∈ text.getLast?, c ≠ '\\' ∧ c ≠ '\r') (more : List Char) :
    lexer.lexemes (text ++ '\n' :: more) =
      lexer.lexemes text ++ ⟨.line, ['\n'], true⟩ :: lexer.lexemes more := by
  obtain ⟨front, tail, htail, hleaves⟩ := lexer.exists_seam hfeed text
  have hnil : tail = [] := by
    obtain ⟨before, rfl⟩ := hleaves.suffix
    by_contra hne
    rw [List.getLast?_append_of_ne_nil before hne] at hend
    simp only [seams, List.mem_cons, List.not_mem_nil, or_false] at htail
    rcases htail with rfl | rfl | rfl | rfl
    · exact hne rfl
    · exact (hend '\r' rfl).2 rfl
    · exact (hend '\\' rfl).1 rfl
    · exact (hend '\r' rfl).2 rfl
  subst hnil
  rw [hleaves.lexemes_feed_eq, hleaves.lexemes_eq, lexemes_nil, List.append_nil, List.nil_append,
    lexemes_lineFeed]

end Lexer

end TokenGrammar
