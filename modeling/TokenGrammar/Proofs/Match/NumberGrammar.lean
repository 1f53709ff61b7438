/-
  TokenGrammar.Proofs.Match.NumberGrammar

  The grammar of numbers, and how numbers lie in the words of a text.  A text that goes on
  with digits has them, and the marker of an exponent, at the beginning of its first word
  (`readDigits_takeWhile_marker`); and it is the first word that says what the base of a
  number is (`exists_splitBase`, `IsNumber.exists_splitBase`).
-/

import TokenGrammar.Proofs.Lexer.Lines
import TokenGrammar.Proofs.Match.Integers

namespace TokenGrammar

-- ============================================================================
-- The grammar of numbers
-- ============================================================================

/-- The digits of an exponent, with or without a sign. -/
inductive IsPower : List Char → Prop
  | plain {digits : List Char} : IsDigits .decimal digits → IsPower digits
  | signed {sign : String} {digits : List Char} : sign ∈ ["+", "-"] →
      IsDigits .decimal digits → IsPower (sign.toList ++ digits)

/-- What follows the point of a number.  The exponent may be left out in a decimal one. -/
inductive IsFraction : NumberBase → List Char → Prop
  | digits {digits : List Char} : IsDigits .decimal digits → IsFraction .decimal digits
  | exponent {base : NumberBase} {digits power : List Char} {marker : Char} :
      IsDigits base digits → marker ∈ base.markers → IsPower power →
      IsFraction base (digits ++ marker :: power)

/-- What follows the integer part of a number. -/
inductive IsTail (base : NumberBase) : List Char → Prop
  | none : IsTail base []
  | exponent {marker : Char} {power : List Char} : marker ∈ base.markers → IsPower power →
      IsTail base (marker :: power)
  | fraction {fraction : List Char} : IsFraction base fraction → IsTail base ('.' :: fraction)

/-- The grammar of numbers. -/
inductive IsNumber : List Char → Prop
  | decimal {whole tail : List Char} : IsDigits .decimal whole → IsTail .decimal tail →
      IsNumber (whole ++ tail)
  | hex {mark : Char} {whole tail : List Char} : mark = 'x' ∨ mark = 'X' →
      IsDigits .hex whole → IsTail .hex tail → IsNumber ('0' :: mark :: (whole ++ tail))

/-- A number may end in front of a text: no word goes on there, and there is no point. -/
def EndsNumber (rest : List Char) : Prop := ∀ c ∈ rest.head?, isWord c = false ∧ c ≠ '.'

theorem IsNumber.exists_digit {number : List Char} (h : IsNumber number) :
    ∃ c rest, number = c :: rest ∧ c.isDigit = true := by
  cases h with
  | @decimal whole tail hwhole _ =>
      obtain ⟨c, digits, rfl⟩ := List.exists_cons_of_ne_nil hwhole.1
      exact ⟨c, digits ++ tail, rfl,
        (@NumberBase.isDigit_iff .decimal c).2 (hwhole.2 c List.mem_cons_self)⟩
  | hex => exact ⟨'0', _, rfl, rfl⟩

-- ============================================================================
-- Ends of words
-- ============================================================================

section Words

variable {text rest : List Char}

theorem EndsNumber.endsWord (h : EndsNumber rest) : ∀ c ∈ rest.head?, isWord c = false :=
  fun c hc => (h c hc).1

theorem takeWhile_isWord_append (htext : ∀ c ∈ text, isWord c = true)
    (hrest : ∀ c ∈ rest.head?, isWord c = false) : (text ++ rest).takeWhile isWord = text := by
  rw [takeWhile_append_of_head hrest, List.takeWhile_eq_self_iff.2 htext]

theorem dropWhile_isWord_append (htext : ∀ c ∈ text, isWord c = true)
    (hrest : ∀ c ∈ rest.head?, isWord c = false) : (text ++ rest).dropWhile isWord = rest := by
  rw [dropWhile_append_of_head hrest, List.dropWhile_eq_nil_iff.2 htext, List.nil_append]

theorem isWord_head?_mark {mark : String} (h : mark ∈ [".", "+", "-"]) (rest : List Char) :
    ∀ c ∈ (mark.toList ++ rest).head?, isWord c = false := by
  simp only [List.mem_cons, List.not_mem_nil, or_false] at h
  rcases h with rfl | rfl | rfl <;> rintro c ⟨⟩ <;> decide

theorem takeWhile_isWord_of_head (hrest : ∀ c ∈ rest.head?, isWord c = false) :
    rest.takeWhile isWord = [] :=
  takeWhile_isWord_append (List.forall_mem_nil _) hrest

theorem dropWhile_isWord_of_head (hrest : ∀ c ∈ rest.head?, isWord c = false) :
    rest.dropWhile isWord = rest :=
  dropWhile_isWord_append (List.forall_mem_nil _) hrest

variable {base : NumberBase} {digits : List Char}

theorem takeWhile_digits_append (h : IsDigits base digits) (rest : List Char) :
    (digits ++ rest).takeWhile isWord = digits ++ rest.takeWhile isWord :=
  List.takeWhile_append_of_pos h.isWord

theorem dropWhile_digits_append (h : IsDigits base digits) (rest : List Char) :
    (digits ++ rest).dropWhile isWord = rest.dropWhile isWord :=
  List.dropWhile_append_of_pos h.isWord

/-- A word that goes on behind its digits does so with a marker. -/
theorem exists_of_readDigits_takeWhile {part : NumberPart} {left : List Char}
    (h : readDigits base part false (text.takeWhile isWord) = .ok (some left)) :
    ∃ digits marker behind, IsDigits base digits ∧ marker ∈ base.markers ∧
      text = digits ++ marker :: behind ∧ left = behind.takeWhile isWord := by
  obtain ⟨digits, marker, hdigits, hmarker, htake⟩ := readDigits_eq_ok_some_iff.1 h
  have hleft : ∀ c ∈ left, isWord c = true := by
    intro c hc
    have hmem : c ∈ text.takeWhile isWord := by
      rw [htake]
      exact List.mem_append_right _ (List.mem_cons_of_mem _ hc)
    exact List.mem_takeWhile_imp hmem
  refine ⟨digits, marker, left ++ text.dropWhile isWord, hdigits, hmarker, ?_,
    (takeWhile_isWord_append hleft eq_false_of_mem_head?_dropWhile).symm⟩
  rw [← List.cons_append, ← List.append_assoc, ← htake, List.takeWhile_append_dropWhile]

theorem readDigits_takeWhile_marker {marker : Char} (h : IsDigits base digits)
    (hmarker : marker ∈ base.markers) (part : NumberPart) (behind : List Char) :
    readDigits base part false ((digits ++ marker :: behind).takeWhile isWord) =
      .ok (some (behind.takeWhile isWord)) := by
  rw [readDigits_eq_ok_some_iff, takeWhile_digits_append h,
    List.takeWhile_cons_of_pos (NumberBase.isWord_of_mem_markers hmarker)]
  exact ⟨digits, marker, h, hmarker, rfl⟩

theorem dropWhile_digits_marker {marker : Char} (h : IsDigits base digits)
    (hmarker : marker ∈ base.markers) (behind : List Char) :
    (digits ++ marker :: behind).dropWhile isWord = behind.dropWhile isWord := by
  rw [dropWhile_digits_append h,
    List.dropWhile_cons_of_pos (NumberBase.isWord_of_mem_markers hmarker)]

end Words

-- ============================================================================
-- Bases
-- ============================================================================

/-- A word that begins with the digits of a decimal number has no sign of another base. -/
theorem splitBase_of_isDigits {whole behind : List Char} (hwhole : IsDigits .decimal whole)
    (hbehind : ∀ c ∈ behind.head?, c ∈ NumberBase.decimal.markers) :
    splitBase (whole ++ behind) = (.decimal, whole ++ behind) := by
  rcases splitBase_cases (whole ++ behind) with hsplit | ⟨mark, digits, hmark, hword, -⟩
  · exact hsplit
  · exfalso
    have hnone : mark ∉ NumberBase.decimal.digits ∧ mark ∉ NumberBase.decimal.markers := by
      rcases hmark with rfl | rfl <;> decide
    obtain ⟨c, more, rfl⟩ := List.exists_cons_of_ne_nil hwhole.1
    have hmore : more ++ behind = mark :: digits := (List.cons.inj hword).2
    cases more with
    | nil =>
        rw [List.nil_append] at hmore
        exact hnone.2 (hbehind mark (by rw [hmore]; rfl))
    | cons d more =>
        rw [← (List.cons.inj hmore).1] at hnone
        exact hnone.1 (hwhole.2 d (List.mem_cons_of_mem _ List.mem_cons_self))

/-- A word goes on behind the integer part of a number only with a marker. -/
theorem IsTail.mem_markers {base : NumberBase} {tail rest : List Char} (h : IsTail base tail)
    (hends : EndsNumber rest) :
    ∀ c ∈ ((tail ++ rest).takeWhile isWord).head?, c ∈ base.markers := by
  cases h with
  | none =>
      rw [List.nil_append, takeWhile_isWord_of_head hends.endsWord]
      exact fun c hc => nomatch hc
  | exponent hmarker =>
      rw [List.cons_append, List.takeWhile_cons_of_pos (NumberBase.isWord_of_mem_markers hmarker)]
      rintro c ⟨⟩
      exact hmarker
  | fraction =>
      rw [List.cons_append, List.takeWhile_cons_of_neg (by decide)]
      exact fun c hc => nomatch hc

section Hex

variable {mark : Char}

theorem isWord_of_hexMark (h : mark = 'x' ∨ mark = 'X') : isWord mark = true := by
  rcases h with rfl | rfl <;> decide

theorem splitBase_hexMark (h : mark = 'x' ∨ mark = 'X') (digits : List Char) :
    splitBase ('0' :: mark :: digits) = (.hex, digits) := by
  rcases h with rfl | rfl <;> rfl

theorem takeWhile_hexMark (h : mark = 'x' ∨ mark = 'X') (text : List Char) :
    ('0' :: mark :: text).takeWhile isWord = '0' :: mark :: text.takeWhile isWord := by
  rw [List.takeWhile_cons_of_pos (by decide), List.takeWhile_cons_of_pos (isWord_of_hexMark h)]

theorem dropWhile_hexMark (h : mark = 'x' ∨ mark = 'X') (text : List Char) :
    ('0' :: mark :: text).dropWhile isWord = text.dropWhile isWord := by
  rw [List.dropWhile_cons_of_pos (by decide), List.dropWhile_cons_of_pos (isWord_of_hexMark h)]

end Hex

/-- Every text has a base, by its first word. -/
theorem exists_splitBase (source : List Char) :
    ∃ base before text, source = before ++ text ∧
      splitBase (source.takeWhile isWord) = (base, text.takeWhile isWord) ∧
      source.dropWhile isWord = text.dropWhile isWord ∧
      ∀ whole tail, IsDigits base whole → IsTail base tail →
        IsNumber (before ++ (whole ++ tail)) := by
  rcases splitBase_cases (source.takeWhile isWord) with hsplit | ⟨mark, digits, hmark, hword, -⟩
  · exact ⟨.decimal, [], source, rfl, hsplit, rfl, fun _ _ => .decimal⟩
  · obtain ⟨text, rfl⟩ : ∃ text, source = '0' :: mark :: text := by
      refine ⟨digits ++ source.dropWhile isWord, ?_⟩
      rw [← List.cons_append, ← List.cons_append, ← hword, List.takeWhile_append_dropWhile]
    refine ⟨.hex, ['0', mark], text, rfl, ?_, dropWhile_hexMark hmark text, fun _ _ => .hex hmark⟩
    rw [takeWhile_hexMark hmark, splitBase_hexMark hmark]

/-- A number has the base that its first word says. -/
theorem IsNumber.exists_splitBase {number rest : List Char} (h : IsNumber number)
    (hends : EndsNumber rest) :
    ∃ base whole tail, IsDigits base whole ∧ IsTail base tail ∧
      splitBase ((number ++ rest).takeWhile isWord) =
        (base, (whole ++ (tail ++ rest)).takeWhile isWord) ∧
      (number ++ rest).dropWhile isWord = (whole ++ (tail ++ rest)).dropWhile isWord := by
  cases h with
  | @decimal whole tail hwhole htail =>
      refine ⟨.decimal, whole, tail, hwhole, htail, ?_, by rw [List.append_assoc]⟩
      rw [List.append_assoc, takeWhile_digits_append hwhole,
        splitBase_of_isDigits hwhole (htail.mem_markers hends)]
  | @hex mark whole tail hmark hwhole htail =>
      refine ⟨.hex, whole, tail, hwhole, htail, ?_, ?_⟩
      · rw [List.cons_append, List.cons_append, List.append_assoc, takeWhile_hexMark hmark,
          splitBase_hexMark hmark]
      · rw [List.cons_append, List.cons_append, List.append_assoc, dropWhile_hexMark hmark]

end TokenGrammar
