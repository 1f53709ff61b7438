/-
  TokenGrammar.Proofs.Match.Integers

  Integers and numbers agree.  A word that is an integer is a number as well, unless a point
  follows it; and a number that is a single word is an integer, unless it has an exponent.

  Main statement: `Terminal.integers_and_numbers_agree`.
-/

import TokenGrammar.Match.Terminal
import TokenGrammar.Proofs.Match.Digits
import TokenGrammar.Proofs.Match.Scanners

namespace TokenGrammar

-- ============================================================================
-- Words
-- ============================================================================

/-- Whether the marker of an exponent stands in a word: `p` or `P` in a hexadecimal one, and
    `e` or `E` in any other. -/
def HasExponent (word : List Char) : Prop := ∃ c ∈ word, c ∈ (splitBase word).1.markers

theorem splitBase_cases (word : List Char) :
    splitBase word = (.decimal, word) ∨
      ∃ mark digits, (mark = 'x' ∨ mark = 'X') ∧ word = '0' :: mark :: digits ∧
        splitBase word = (.hex, digits) := by
  fun_cases splitBase word with
  | case1 digits => exact .inr ⟨'x', digits, .inl rfl, rfl, rfl⟩
  | case2 digits => exact .inr ⟨'X', digits, .inr rfl, rfl, rfl⟩
  | case3 => exact .inl rfl

/-- What says that a word is hexadecimal is no marker. -/
theorem hasExponent_iff {word : List Char} :
    HasExponent word ↔ ∃ c ∈ (splitBase word).2, c ∈ (splitBase word).1.markers := by
  unfold HasExponent
  rcases splitBase_cases word with hsplit | ⟨mark, digits, hmark, rfl, hsplit⟩
  · rw [hsplit]
  · rw [hsplit]
    have hfree : '0' ∉ NumberBase.hex.markers ∧ mark ∉ NumberBase.hex.markers := by
      rcases hmark with rfl | rfl <;> decide
    simp only [List.mem_cons]
    grind

/-- Digits of an integer begin with a decimal one. -/
theorem any_isDigit_of_isDigits {word : List Char}
    (h : IsDigits (splitBase word).1 (splitBase word).2) : word.head?.any Char.isDigit = true := by
  rcases splitBase_cases word with hsplit | ⟨mark, digits, -, rfl, -⟩
  · rw [hsplit] at h
    obtain ⟨c, rest, rfl⟩ := List.exists_cons_of_ne_nil h.1
    exact (@NumberBase.isDigit_iff .decimal c).2 (h.2 c List.mem_cons_self)
  · rfl

/-- A word in which digits can be read is made of nothing else unless it has an exponent. -/
theorem isDigits_iff_of_readDigits {word : List Char} {part : NumberPart}
    {found : Option (List Char)}
    (h : readDigits (splitBase word).1 part false (splitBase word).2 = .ok found) :
    IsDigits (splitBase word).1 (splitBase word).2 ↔ ¬ HasExponent word := by
  rw [hasExponent_iff]
  cases found with
  | none =>
      have hdigits := readDigits_eq_ok_none_iff.1 h
      refine iff_of_true hdigits ?_
      rintro ⟨c, hc, hmarker⟩
      exact NumberBase.not_mem_markers (hdigits.2 c hc) hmarker
  | some rest =>
      obtain ⟨digits, marker, -, hmarker, hword⟩ := readDigits_eq_ok_some_iff.1 h
      have hmem : marker ∈ (splitBase word).2 := by
        rw [hword]
        exact List.mem_append_right _ List.mem_cons_self
      refine iff_of_false (fun hdigits => ?_) (not_not.2 ⟨marker, hmem, hmarker⟩)
      exact NumberBase.not_mem_markers (hdigits.2 marker hmem) hmarker

-- ============================================================================
-- Numbers of a single word
-- ============================================================================

/-- Behind a word there is another token. -/
theorem Reader.position_after_next {reader : Reader} (htiles : reader.stream.Tiles)
    {adjacent : Bool} (h : (reader.next adjacent).token.cls = .identifier) :
    (reader.next adjacent).after.position = (reader.next adjacent).position + 1 ∧
      (reader.next adjacent).after.peekAdjacent =
        reader.stream.get ((reader.next adjacent).position + 1) := by
  rw [next_eq] at h ⊢
  have hcls : (reader.stream.get (reader.next adjacent).position).cls ≠ .ending := by
    rw [show (reader.stream.get (reader.next adjacent).position).cls = .identifier from h]
    decide
  have hlt := htiles.lt_last_of_cls_ne hcls
  dsimp only
  rw [consume_of_lt hlt]
  exact ⟨rfl, rfl⟩

namespace PartialNumber

variable {number result : PartialNumber}

theorem position_take (htiles : number.reader.stream.Tiles) (h : number.next.cls ≠ .ending) :
    number.take.reader.position = number.reader.position + 1 := by
  have hlt := htiles.lt_last_of_cls_ne h
  show number.reader.consume.position = _
  rw [Reader.consume_of_lt hlt]
  rfl

theorem lt_position_of_readExponent (htiles : number.reader.stream.Tiles) {position : Nat}
    (h : number.readExponent position [] = .ok result) :
    number.reader.position < result.reader.position := by
  unfold readExponent at h
  rw [List.isEmpty_nil, if_pos rfl] at h
  dsimp only at h
  split at h
  · next hdigits =>
    rw [Bool.and_eq_true] at hdigits
    have htaken : number.takeSign.take.reader.position = number.takeSign.reader.position + 1 :=
      position_take (by rw [stream_takeSign]; exact htiles) (cls_ne_of_beq hdigits.1 (by decide))
    have hsigned := (onward_takeSign number).position_le
    have hbehind := (onward_of_withoutPoint h).position_le
    omega
  · cases h

/-- A number that takes no other token is the word that it begins with, which is made of
    digits unless it has an exponent. -/
theorem eq_of_readRest (htiles : number.reader.stream.Tiles) {position : Nat}
    (h : number.readRest position = .ok result)
    (hposition : result.reader.position = number.reader.position) :
    result = number ∧
      (IsDigits (splitBase number.text.toList).1 (splitBase number.text.toList).2 ↔
        ¬ HasExponent number.text.toList) := by
  unfold readRest at h
  dsimp only at h
  split at h
  · cases h
  · next rest hdigits =>
    refine ⟨?_, isDigits_iff_of_readDigits hdigits⟩
    cases rest with
    | nil => exact absurd hposition (Nat.ne_of_gt (lt_position_of_readExponent htiles h))
    | cons c rest =>
        unfold readExponent withoutPoint at h
        rw [List.isEmpty_cons, if_neg Bool.false_ne_true] at h
        split at h
        · split at h <;> cases h
          rfl
        · cases h
  · next hdigits =>
    refine ⟨?_, isDigits_iff_of_readDigits hdigits⟩
    split at h
    · next hpoint =>
      have htaken := position_take htiles (cls_ne_ending_of_isSymbol hpoint)
      have hbehind := (onward_of_readFraction h).position_le
      omega
    · cases h
      rfl

end PartialNumber

/-- A number is read from its first word on. -/
theorem matchNumber_eq_ok_iff {adjacent : Bool} {reader behind : Reader} {matched : Matched} :
    matchNumber adjacent reader = .ok (matched, behind) ↔
      ((reader.next adjacent).token.cls = .identifier ∧
        (reader.next adjacent).token.text.toList.head?.any Char.isDigit = true) ∧
      ∃ number : PartialNumber,
        PartialNumber.readRest ⟨(reader.next adjacent).token.text,
          (reader.next adjacent).token.span.stop, (reader.next adjacent).after⟩
          (reader.next adjacent).position = .ok number ∧
        matched = ⟨.number, number.text, ⟨(reader.next adjacent).token.span.start, number.stop⟩,
          (reader.next adjacent).position⟩ ∧ behind = number.reader := by
  unfold matchNumber
  dsimp only
  split
  · next hword =>
    rw [Bool.and_eq_true, beq_iff_eq] at hword
    rw [and_iff_right hword]
    split
    · next hread =>
      refine iff_of_false (fun hok => nomatch hok) ?_
      rintro ⟨number, hok, -⟩
      cases hread.symm.trans hok
    · next number hread =>
      rw [Except.ok.injEq, Prod.mk.injEq]
      constructor
      · rintro ⟨rfl, rfl⟩
        exact ⟨number, hread, rfl, rfl⟩
      · rintro ⟨other, hok, rfl, rfl⟩
        cases hread.symm.trans hok
        exact ⟨rfl, rfl⟩
  · next hword =>
    refine iff_of_false (fun hok => nomatch hok) fun h => hword ?_
    rw [Bool.and_eq_true, beq_iff_eq]
    exact h.1

-- ============================================================================
-- Terminals
-- ============================================================================

namespace Terminal

theorem matchAt_integer_eq_ok_iff {adjacent : Bool} {reader behind : Reader} {matched : Matched} :
    matchAt (.ofCategory .integer) adjacent reader = .ok (matched, behind) ↔
      isInteger (reader.next adjacent).token = true ∧
        matched = ⟨.integer, (reader.next adjacent).token.text, (reader.next adjacent).token.span,
          (reader.next adjacent).position⟩ ∧ behind = (reader.next adjacent).after := by
  show (if isInteger (reader.next adjacent).token = true then _ else _) = _ ↔ _
  split
  · next hinteger =>
    rw [Except.ok.injEq, Prod.mk.injEq, eq_comm, and_iff_right hinteger]
    exact and_congr_right fun _ => eq_comm
  · next hinteger => exact iff_of_false (fun h => nomatch h) fun h => hinteger h.1

/-- Integers and numbers agree.  Where an integer is matched and no point follows, the same
    token is matched as a number, and the reader gets to the same place.  Where a number of
    a single token is matched, that token is matched as an integer exactly if it has no
    exponent. -/
theorem integers_and_numbers_agree (lexer : Lexer) (input : String) (position : Nat)
    (skipLines adjacent : Bool) :
    let stream := lexer.tokenize input
    let reader : Reader := ⟨stream, position, skipLines⟩
    (∀ matched behind, matchAt (.ofCategory .integer) adjacent reader = .ok (matched, behind) →
      (stream.get (matched.position + 1)).isSymbol "." = false →
      matchAt (.ofCategory .number) adjacent reader =
        .ok ({ matched with cls := .number }, behind)) ∧
    (∀ matched behind, matchAt (.ofCategory .number) adjacent reader = .ok (matched, behind) →
      behind.position = matched.position + 1 →
      (matchAt (.ofCategory .integer) adjacent reader =
          .ok ({ matched with cls := .integer }, behind) ↔
        ¬ HasExponent matched.text.toList)) := by
  intro stream reader
  have htiles : reader.stream.Tiles := lexer.tiles_tokenize input
  constructor
  · intro matched behind hmatch hpoint
    obtain ⟨hinteger, rfl, rfl⟩ := matchAt_integer_eq_ok_iff.1 hmatch
    obtain ⟨hcls, hdigits⟩ := isInteger_iff.1 hinteger
    obtain ⟨-, hpeek⟩ := Reader.position_after_next htiles hcls
    have hread : PartialNumber.readRest ⟨(reader.next adjacent).token.text,
        (reader.next adjacent).token.span.stop, (reader.next adjacent).after⟩
        (reader.next adjacent).position = .ok ⟨(reader.next adjacent).token.text,
          (reader.next adjacent).token.span.stop, (reader.next adjacent).after⟩ := by
      unfold PartialNumber.readRest PartialNumber.next
      dsimp only
      rw [readDigits_eq_ok_none_iff.2 hdigits, hpeek]
      dsimp only
      rw [if_neg (Bool.eq_false_iff.1 hpoint)]
    exact matchNumber_eq_ok_iff.2 ⟨⟨hcls, any_isDigit_of_isDigits hdigits⟩, _, hread, rfl, rfl⟩
  · intro matched behind hmatch hposition
    obtain ⟨⟨hcls, -⟩, number, hread, rfl, rfl⟩ := matchNumber_eq_ok_iff.1 hmatch
    obtain ⟨hafter, -⟩ := Reader.position_after_next htiles hcls
    obtain ⟨rfl, hdigits⟩ := PartialNumber.eq_of_readRest
      (by rw [Reader.stream_next]; exact htiles) hread (hposition.trans hafter.symm)
    rw [matchAt_integer_eq_ok_iff, isInteger_iff, ← hdigits]
    exact ⟨fun h => h.1.2, fun h => ⟨⟨hcls, h⟩, rfl, rfl⟩⟩

/-- A hexadecimal integer is a number as well, and a decimal number with an exponent is no
    integer. -/
theorem hex_word_is_integer_and_number :
    let stream := Lexer.base.tokenize "0x1F 1e5"
    matchAt (.ofCategory .integer) false ⟨stream, 0, true⟩ =
        .ok (⟨.integer, "0x1F", ⟨0, 4⟩, 1⟩, ⟨stream, 2, true⟩) ∧
      matchAt (.ofCategory .number) false ⟨stream, 0, true⟩ =
        .ok (⟨.number, "0x1F", ⟨0, 4⟩, 1⟩, ⟨stream, 2, true⟩) ∧
      matchAt (.ofCategory .number) false ⟨stream, 2, true⟩ =
        .ok (⟨.number, "1e5", ⟨5, 8⟩, 3⟩, ⟨stream, 4, true⟩) ∧
      matchAt (.ofCategory .integer) false ⟨stream, 2, true⟩ ≠
        .ok (⟨.integer, "1e5", ⟨5, 8⟩, 3⟩, ⟨stream, 4, true⟩) := by
  intro stream
  have hinteger : matchAt (.ofCategory .integer) false ⟨stream, 0, true⟩ =
      .ok (⟨.integer, "0x1F", ⟨0, 4⟩, 1⟩, ⟨stream, 2, true⟩) := by decide +kernel
  have hpoint : (stream.get 2).isSymbol "." = false := by decide +kernel
  have hnumber : matchAt (.ofCategory .number) false ⟨stream, 2, true⟩ =
      .ok (⟨.number, "1e5", ⟨5, 8⟩, 3⟩, ⟨stream, 4, true⟩) := by decide +kernel
  have hexponent : HasExponent "1e5".toList := ⟨'e', by decide, by decide⟩
  obtain ⟨hwhole, -⟩ := integers_and_numbers_agree .base "0x1F 1e5" 0 true false
  obtain ⟨-, hsingle⟩ := integers_and_numbers_agree .base "0x1F 1e5" 2 true false
  refine ⟨hinteger, hwhole _ _ hinteger hpoint, hnumber, fun hmatch => ?_⟩
  exact (hsingle _ _ hnumber rfl).1 hmatch hexponent

end Terminal

end TokenGrammar
