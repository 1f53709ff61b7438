/-
  TokenGrammar.Proofs.Match.Digits

  The digits of numbers.  A run of digits is read up to an exponent marker or the end of
  the word, and to nothing else (`readDigits_eq_ok_none_iff`, `readDigits_eq_ok_some_iff`);
  no character is both a digit and a marker of one base.
-/

import TokenGrammar.Match.Number
import TokenGrammar.Proofs.Lexer.Scanning

namespace TokenGrammar

-- ============================================================================
-- Digits and markers
-- ============================================================================

namespace NumberBase

/-- The digits of a base. -/
def digits : NumberBase → List Char
  | .decimal => "0123456789".toList
  | .hex => "0123456789abcdefABCDEF".toList

/-- The characters that mark the exponent of a number of a base. -/
def markers : NumberBase → List Char
  | .decimal => ['e', 'E']
  | .hex => ['p', 'P']

variable {base : NumberBase} {c : Char}

theorem toNat_lt_of_isDigit (h : base.isDigit c = true) : c.toNat < 128 := by
  have hdecimal : Char.isDigit c = true → c.toNat < 128 := by
    intro hdigit
    have hranges : Char.isDigit c = (decide (48 ≤ c.val) && decide (c.val ≤ 57)) := rfl
    simp only [hranges, Bool.and_eq_true, decide_eq_true_eq, UInt32.le_iff_toNat_le] at hdigit
    exact Nat.lt_of_le_of_lt hdigit.2 (by decide)
  cases base with
  | decimal => exact hdecimal h
  | hex =>
      have hhex : isHexDigit c = true := h
      simp only [isHexDigit, Bool.or_eq_true, Bool.and_eq_true, decide_eq_true_eq] at hhex
      rcases hhex with (hdigit | ⟨-, hlower⟩) | ⟨-, hupper⟩
      · exact hdecimal hdigit
      · exact Nat.lt_of_le_of_lt (UInt32.le_iff_toNat_le.1 hlower) (by decide)
      · exact Nat.lt_of_le_of_lt (UInt32.le_iff_toNat_le.1 hupper) (by decide)

theorem isDigit_iff : base.isDigit c = true ↔ c ∈ base.digits := by
  constructor
  · intro h
    have hcodes : ∀ code, code < 128 → base.isDigit (Char.ofNat code) = true →
        Char.ofNat code ∈ base.digits := by
      cases base <;> decide
    exact of_toNat_lt (fun c => base.isDigit c = true → c ∈ base.digits) hcodes
      (toNat_lt_of_isDigit h) h
  · have hdigits : base.digits.all base.isDigit = true := by
      cases base <;> decide
    exact List.all_eq_true.1 hdigits c

theorem isExponentMarker_iff : base.isExponentMarker c = true ↔ c ∈ base.markers := by
  cases base <;>
    simp only [isExponentMarker, markers, Bool.or_eq_true, beq_iff_eq, List.mem_cons,
      List.not_mem_nil, or_false]

theorem not_mem_markers (h : c ∈ base.digits) : c ∉ base.markers := by
  have hdigits : base.digits.all (!base.isExponentMarker ·) = true := by
    cases base <;> decide
  intro hmarker
  have hnot := List.all_eq_true.1 hdigits c h
  rw [isExponentMarker_iff.2 hmarker] at hnot
  cases hnot

theorem isWord_of_mem_digits (h : c ∈ base.digits) : isWord c = true := by
  have hdigits : base.digits.all isWord = true := by
    cases base <;> decide
  exact List.all_eq_true.1 hdigits c h

theorem isWord_of_mem_markers (h : c ∈ base.markers) : isWord c = true := by
  have hmarkers : base.markers.all isWord = true := by
    cases base <;> decide
  exact List.all_eq_true.1 hmarkers c h

end NumberBase

-- ============================================================================
-- Runs of digits
-- ============================================================================

/-- Whether some characters are digits of a base, and at least one. -/
def IsDigits (base : NumberBase) (text : List Char) : Prop :=
  text ≠ [] ∧ ∀ c ∈ text, c ∈ base.digits

section Runs

variable {base : NumberBase} {text : List Char}

theorem IsDigits.isWord (h : IsDigits base text) : ∀ c ∈ text, isWord c = true :=
  fun c hc => NumberBase.isWord_of_mem_digits (h.2 c hc)

theorem isDigits_iff :
    IsDigits base text ↔ (!text.isEmpty && text.all base.isDigit) = true := by
  rw [Bool.and_eq_true, Bool.not_eq_true', List.isEmpty_eq_false_iff, List.all_eq_true]
  exact and_congr_right fun _ => forall₂_congr fun c _ => NumberBase.isDigit_iff.symm

instance : Decidable (IsDigits base text) := decidable_of_iff _ isDigits_iff.symm

theorem isDecimal_iff : isDecimal text = true ↔ IsDigits .decimal text :=
  (@isDigits_iff .decimal text).symm

theorem isInteger_iff {token : Token} :
    isInteger token = true ↔ token.cls = .identifier ∧
      IsDigits (splitBase token.text.toList).1 (splitBase token.text.toList).2 := by
  rw [isInteger, Bool.and_eq_true, Bool.and_eq_true, beq_iff_eq, and_assoc, isDigits_iff,
    Bool.and_eq_true]

/-- Digits are stepped over. -/
theorem readDigits_append {digits : List Char} (h : ∀ c ∈ digits, c ∈ base.digits)
    (part : NumberPart) (seen : Bool) (rest : List Char) :
    readDigits base part seen (digits ++ rest) =
      readDigits base part (seen || !digits.isEmpty) rest := by
  induction digits generalizing seen with
  | nil => rw [List.isEmpty_nil, Bool.not_true, Bool.or_false]; rfl
  | cons c digits ih =>
      obtain ⟨hc, hdigits⟩ := List.forall_mem_cons.1 h
      have hmarker : ¬ base.isExponentMarker c = true := fun hmark =>
        NumberBase.not_mem_markers hc (NumberBase.isExponentMarker_iff.1 hmark)
      rw [List.cons_append, readDigits, if_neg hmarker, if_pos (NumberBase.isDigit_iff.2 hc),
        ih hdigits, Bool.true_or, List.isEmpty_cons, Bool.not_false, Bool.or_true]

/-- What is read are digits, up to the end of the word or an exponent marker. -/
theorem of_readDigits_eq_ok {part : NumberPart} {seen : Bool} {found : Option (List Char)}
    (h : readDigits base part seen text = .ok found) :
    ∃ digits, (∀ c ∈ digits, c ∈ base.digits) ∧ (seen = true ∨ digits ≠ []) ∧
      ((found = none ∧ text = digits) ∨
        ∃ marker rest, found = some rest ∧ marker ∈ base.markers ∧
          text = digits ++ marker :: rest) := by
  induction text generalizing seen with
  | nil =>
      rw [readDigits] at h
      split at h
      · next hseen =>
        cases h
        exact ⟨[], List.forall_mem_nil _, .inl hseen, .inl ⟨rfl, rfl⟩⟩
      · cases h
  | cons c rest ih =>
      rw [readDigits] at h
      split at h
      · next hmarker =>
        split at h
        · next hseen =>
          cases h
          exact ⟨[], List.forall_mem_nil _, .inl hseen,
            .inr ⟨c, rest, rfl, NumberBase.isExponentMarker_iff.1 hmarker, rfl⟩⟩
        · cases h
      · split at h
        · next hdigit =>
          obtain ⟨digits, hdigits, -, hends⟩ := ih h
          refine ⟨c :: digits, List.forall_mem_cons.2 ⟨NumberBase.isDigit_iff.1 hdigit, hdigits⟩,
            .inr (List.cons_ne_nil _ _), ?_⟩
          rcases hends with ⟨rfl, rfl⟩ | ⟨marker, behind, rfl, hmarker, rfl⟩
          · exact .inl ⟨rfl, rfl⟩
          · exact .inr ⟨marker, behind, rfl, hmarker, rfl⟩
        · cases h

theorem readDigits_eq_ok_none_iff {part : NumberPart} :
    readDigits base part false text = .ok none ↔ IsDigits base text := by
  constructor
  · intro h
    obtain ⟨digits, hdigits, hne, ⟨-, rfl⟩ | ⟨_, _, hsome, _⟩⟩ := of_readDigits_eq_ok h
    · exact ⟨hne.resolve_left Bool.false_ne_true, hdigits⟩
    · cases hsome
  · rintro ⟨hne, hdigits⟩
    rw [← List.append_nil text, readDigits_append hdigits, List.isEmpty_eq_false_iff.2 hne]
    rfl

theorem readDigits_eq_ok_some_iff {part : NumberPart} {rest : List Char} :
    readDigits base part false text = .ok (some rest) ↔
      ∃ digits marker, IsDigits base digits ∧ marker ∈ base.markers ∧
        text = digits ++ marker :: rest := by
  constructor
  · intro h
    obtain ⟨digits, hdigits, hne, ⟨hnone, -⟩ | ⟨marker, _, hsome, hmarker, htext⟩⟩ :=
      of_readDigits_eq_ok h
    · cases hnone
    · cases hsome
      exact ⟨digits, marker, ⟨hne.resolve_left Bool.false_ne_true, hdigits⟩, hmarker, htext⟩
  · rintro ⟨digits, marker, ⟨hne, hdigits⟩, hmarker, rfl⟩
    rw [readDigits_append hdigits, List.isEmpty_eq_false_iff.2 hne, readDigits,
      if_pos (NumberBase.isExponentMarker_iff.2 hmarker)]
    rfl

end Runs

end TokenGrammar
