/-
  TokenGrammar.Proofs.Lexer.WordOrder

  The order in which words are registered does not matter.  Words that are held longest first
  are determined by which words they are (`eq_sortLongestFirst_iff`), and any way of sorting
  them that leaves repetitions next to each other comes to the same list once these are
  dropped (`destutter_eq_sortLongestFirst`).  So a lexer holds what has been registered with
  it so far, sorted (`Lexer.registerAll_eq`), however often it was sorted on the way.

  Main statement: `Lexer.registration_order_is_irrelevant`.
-/

import Mathlib.Data.List.Destutter
import Mathlib.Data.List.Sort
import TokenGrammar.Lexer.Tokenize
import TokenGrammar.Proofs.Lexer.ByteOrder

namespace TokenGrammar

-- ============================================================================
-- Sorted lists
-- ============================================================================

section Sorted

variable {α : Type} [DecidableEq α] {le : α → α → Prop}

/-- In a list that is sorted, perhaps with repetitions, equal members stand next to each
    other.  So none is left twice if those are dropped that are equal to what stands in front
    of them, and no member is lost. -/
theorem destutter'_ne_of_pairwise (hantisymm : ∀ x y, le x y → le y x → x = y) {xs : List α}
    {x : α} (h : (x :: xs).Pairwise le) :
    (xs.destutter' (· ≠ ·) x).Nodup ∧ ∀ y, y ∈ xs.destutter' (· ≠ ·) x ↔ y ∈ x :: xs := by
  induction xs generalizing x with
  | nil => simp
  | cons next rest ih =>
      by_cases hne : x ≠ next
      · obtain ⟨hnodup, hmem⟩ := ih h.tail
        rw [List.destutter'_cons, if_pos hne]
        refine ⟨List.nodup_cons.2 ⟨fun hagain => ?_, hnodup⟩, fun y => ?_⟩
        · -- It would stand behind the next member as well as in front of it.
          rcases List.mem_cons.1 ((hmem x).1 hagain) with hsame | hrest
          · exact hne hsame
          · have hbehind := (List.pairwise_cons.1 h.tail).1 x hrest
            have hfront := (List.pairwise_cons.1 h).1 next List.mem_cons_self
            exact hne (hantisymm x next hfront hbehind)
        · rw [List.mem_cons, hmem, List.mem_cons (b := x)]
      · obtain rfl := not_not.1 hne
        rw [List.destutter'_cons, if_neg hne]
        obtain ⟨hnodup, hmem⟩ := ih (h.sublist (List.sublist_cons_self x (x :: rest)))
        exact ⟨hnodup, fun y => by rw [hmem]; simp⟩

theorem destutter_ne_of_pairwise (hantisymm : ∀ x y, le x y → le y x → x = y) {xs : List α}
    (h : xs.Pairwise le) :
    (xs.destutter (· ≠ ·)).Nodup ∧ ∀ y, y ∈ xs.destutter (· ≠ ·) ↔ y ∈ xs := by
  cases xs with
  | nil => simp
  | cons x xs => exact destutter'_ne_of_pairwise hantisymm h

end Sorted

-- ============================================================================
-- Words, longest first
-- ============================================================================

theorem longerFirst_irrefl (word : String) : longerFirst word word = false := by
  simp [longerFirst]

instance : IsTrans String (longerFirst · · = true) := ⟨longerFirst_trans⟩

instance : Std.Irrefl (longerFirst · · = true) :=
  ⟨fun word => by rw [longerFirst_irrefl]; decide⟩

instance : Std.Antisymm (longerFirst · · = true) := Std.Asymm.antisymm _

/-- Sorted words depend on which words they are alone. -/
theorem sortLongestFirst_eq_of_mem_iff {words others : List String}
    (h : ∀ word, word.isEmpty = false → (word ∈ words ↔ word ∈ others)) :
    sortLongestFirst words = sortLongestFirst others := by
  refine (pairwise_sortLongestFirst words).eq_of_mem_iff (pairwise_sortLongestFirst others)
    fun word => ?_
  rw [mem_sortLongestFirst, mem_sortLongestFirst, and_congr_left_iff]
  exact h word

/-- Words that are sorted stay as they are when they are sorted again. -/
theorem sortLongestFirst_sortLongestFirst (words : List String) :
    sortLongestFirst (sortLongestFirst words) = sortLongestFirst words :=
  sortLongestFirst_eq_of_mem_iff fun word hne => by
    rw [mem_sortLongestFirst]
    exact and_iff_left hne

/-- The order of registered words is strict. -/
theorem sortLongestFirst_strict (words : List String) :
    (sortLongestFirst words).Nodup ∧ "" ∉ sortLongestFirst words ∧
      (sortLongestFirst words).Pairwise fun word next =>
        next.utf8ByteSize < word.utf8ByteSize ∨
          next.utf8ByteSize = word.utf8ByteSize ∧ utf8Bytes word < utf8Bytes next := by
  have hpairwise := pairwise_sortLongestFirst words
  refine ⟨hpairwise.imp ?_, fun h => ?_, hpairwise.imp longerFirst_iff.1⟩
  · rintro word _ hlonger rfl
    rw [longerFirst_irrefl] at hlonger
    cases hlonger
  · exact absurd (mem_sortLongestFirst.1 h).2 (by decide)

/-- Whether a word may stand in front of another: it has more bytes, or it has as many, and
    they are those of the other or come before them. -/
def MayPrecede (word next : String) : Prop :=
  next.utf8ByteSize < word.utf8ByteSize ∨
    next.utf8ByteSize = word.utf8ByteSize ∧ utf8Bytes word ≤ utf8Bytes next

variable {word next : String}

theorem utf8Bytes_injective (h : utf8Bytes word = utf8Bytes next) : word = next := by
  have hnot : ¬word < next ∧ ¬next < word := by
    rw [lt_iff_utf8Bytes_lt, lt_iff_utf8Bytes_lt, h]
    exact ⟨List.lt_irrefl _, List.lt_irrefl _⟩
  exact String.le_antisymm (String.not_lt.1 hnot.2) (String.not_lt.1 hnot.1)

/-- A word may stand in front of the words that come behind it, and of itself. -/
theorem mayPrecede_iff : MayPrecede word next ↔ longerFirst word next = true ∨ word = next := by
  rw [longerFirst_iff, MayPrecede]
  constructor
  · rintro (hsize | ⟨hsize, hbytes⟩)
    · exact .inl (.inl hsize)
    · rcases List.le_iff_lt_or_eq.1 hbytes with hlt | heq
      · exact .inl (.inr ⟨hsize, hlt⟩)
      · exact .inr (utf8Bytes_injective heq)
  · rintro ((hsize | ⟨hsize, hbytes⟩) | rfl)
    · exact .inl hsize
    · exact .inr ⟨hsize, List.le_of_lt hbytes⟩
    · exact .inr ⟨rfl, List.le_refl _⟩

theorem MayPrecede.antisymm (h : MayPrecede word next) (h' : MayPrecede next word) :
    word = next := by
  rcases mayPrecede_iff.1 h with hlonger | rfl
  · rcases mayPrecede_iff.1 h' with hlonger' | rfl
    · exact antisymm_of (longerFirst · · = true) hlonger hlonger'
    · rfl
  · rfl

/-- The sorted words are the only list without repetitions that has exactly the non-empty
    words and in which each may stand in front of those behind it. -/
theorem eq_sortLongestFirst_iff {words result : List String} :
    result = sortLongestFirst words ↔ result.Nodup ∧
      (∀ word, word ∈ result ↔ word ∈ words ∧ word ≠ "") ∧ result.Pairwise MayPrecede := by
  have hempty {word : String} : word.isEmpty = false ↔ word ≠ "" := by
    rw [← Bool.not_eq_true, String.isEmpty_iff]
  have hmem (word : String) : word ∈ sortLongestFirst words ↔ word ∈ words ∧ word ≠ "" := by
    rw [mem_sortLongestFirst, hempty]
  constructor
  · rintro rfl
    exact ⟨(sortLongestFirst_strict words).1, hmem,
      (pairwise_sortLongestFirst words).imp fun hlonger => mayPrecede_iff.2 (.inl hlonger)⟩
  · rintro ⟨hnodup, hresult, hpairwise⟩
    have hstrict : result.Pairwise (longerFirst · · = true) :=
      (hpairwise.and hnodup).imp fun ⟨hmay, hne⟩ => (mayPrecede_iff.1 hmay).resolve_right hne
    exact hstrict.eq_of_mem_iff (pairwise_sortLongestFirst words)
      fun word => by rw [hresult, hmem]

/-- However the non-empty words are sorted, they come to the same list once repetitions that
    stand next to each other are dropped. -/
theorem destutter_eq_sortLongestFirst {words arranged : List String}
    (hperm : arranged.Perm (words.filter (· ≠ ""))) (hsorted : arranged.Pairwise MayPrecede) :
    arranged.destutter (· ≠ ·) = sortLongestFirst words := by
  obtain ⟨hnodup, hmem⟩ := destutter_ne_of_pairwise (fun _ _ => MayPrecede.antisymm) hsorted
  refine eq_sortLongestFirst_iff.2 ⟨hnodup, fun word => ?_,
    hsorted.sublist (List.destutter_sublist _ arranged)⟩
  rw [hmem, hperm.mem_iff, List.mem_filter, decide_eq_true_iff]

-- ============================================================================
-- Registered words
-- ============================================================================

/-- Words that are registered with a lexer at once. -/
inductive Registration where
  | symbols (words : List String)
  | keywords (words : List String)
  deriving DecidableEq, Repr

namespace Registration

/-- The words that are registered as symbols. -/
def symbolWords : Registration → List String
  | .symbols words => words
  | .keywords _ => []

/-- The words that are registered as keywords. -/
def keywordWords : Registration → List String
  | .symbols _ => []
  | .keywords words => words

end Registration

namespace Lexer

/-- Register some words. -/
def register (lexer : Lexer) : Registration → Lexer
  | .symbols words => lexer.withSymbols words
  | .keywords words => lexer.withKeywords words

/-- Register words again and again, beginning without any. -/
def registerAll (quotes : List Char) (lineComment : Option String)
    (registrations : List Registration) : Lexer :=
  registrations.foldl register ⟨[], [], quotes, lineComment⟩

variable {quotes : List Char} {lineComment : Option String}

/-- Words that are registered with sorted ones are sorted in among them. -/
theorem sortLongestFirst_append_sorted (words more : List String) :
    sortLongestFirst (sortLongestFirst words ++ more) = sortLongestFirst (words ++ more) :=
  sortLongestFirst_eq_of_mem_iff fun word hne => by
    rw [List.mem_append, List.mem_append, mem_sortLongestFirst, and_iff_left hne]

/-- One registration keeps what all words that were registered are sorted into. -/
theorem register_eq (symbols keywords : List String) (registration : Registration) :
    register ⟨sortLongestFirst symbols, sortLongestFirst keywords, quotes, lineComment⟩
        registration =
      ⟨sortLongestFirst (symbols ++ registration.symbolWords),
        sortLongestFirst (keywords ++ registration.keywordWords), quotes, lineComment⟩ := by
  cases registration with
  | symbols words =>
      rw [register, withSymbols, sortLongestFirst_append_sorted, Registration.symbolWords,
        Registration.keywordWords, List.append_nil]
  | keywords words =>
      rw [register, withKeywords, sortLongestFirst_append_sorted, Registration.symbolWords,
        Registration.keywordWords, List.append_nil]

/-- A lexer holds all words that have been registered, sorted. -/
theorem registerAll_eq (registrations : List Registration) :
    registerAll quotes lineComment registrations =
      ⟨sortLongestFirst (registrations.flatMap Registration.symbolWords),
        sortLongestFirst (registrations.flatMap Registration.keywordWords), quotes,
        lineComment⟩ := by
  induction registrations using List.reverseRecOn with
  | nil => rfl
  | append_singleton registrations registration ih =>
      have hfold : registerAll quotes lineComment (registrations ++ [registration]) =
          (registerAll quotes lineComment registrations).register registration := by
        rw [registerAll, List.foldl_append]
        rfl
      rw [hfold, ih, register_eq, List.flatMap_append, List.flatMap_append,
        List.flatMap_singleton, List.flatMap_singleton]

/-- The order in which words are registered does not matter.  Sorting makes the only list
    without repetitions of the non-empty words in which those of more bytes stand in front,
    and those of as many bytes in the order of these; any other way of sorting, with
    repetitions dropped afterwards, makes the same.  So lexers with which the same non-empty
    words have been registered, in any number of registrations and in any order, are equal,
    and split every text into the same tokens. -/
theorem registration_order_is_irrelevant :
    (∀ words result : List String, result = sortLongestFirst words ↔ result.Nodup ∧
      (∀ word, word ∈ result ↔ word ∈ words ∧ word ≠ "") ∧
      result.Pairwise fun word next => next.utf8ByteSize < word.utf8ByteSize ∨
        next.utf8ByteSize = word.utf8ByteSize ∧ utf8Bytes word ≤ utf8Bytes next) ∧
    (∀ words arranged : List String, arranged.Perm (words.filter (· ≠ "")) →
      (arranged.Pairwise fun word next => next.utf8ByteSize < word.utf8ByteSize ∨
        next.utf8ByteSize = word.utf8ByteSize ∧ utf8Bytes word ≤ utf8Bytes next) →
      arranged.destutter (· ≠ ·) = sortLongestFirst words) ∧
    ∀ (quotes : List Char) (lineComment : Option String) (first second : List Registration),
      (∀ word, word ≠ "" → ((∃ registration ∈ first, word ∈ registration.symbolWords) ↔
        ∃ registration ∈ second, word ∈ registration.symbolWords)) →
      (∀ word, word ≠ "" → ((∃ registration ∈ first, word ∈ registration.keywordWords) ↔
        ∃ registration ∈ second, word ∈ registration.keywordWords)) →
      registerAll quotes lineComment first = registerAll quotes lineComment second ∧
      ∀ text, (registerAll quotes lineComment first).tokenize text =
        (registerAll quotes lineComment second).tokenize text := by
  refine ⟨fun words result => eq_sortLongestFirst_iff,
    fun words arranged => destutter_eq_sortLongestFirst, ?_⟩
  intro quotes lineComment first second hsymbols hkeywords
  have hsame {words : Registration → List String}
      (h : ∀ word, word ≠ "" → ((∃ registration ∈ first, word ∈ words registration) ↔
        ∃ registration ∈ second, word ∈ words registration)) :
      sortLongestFirst (first.flatMap words) = sortLongestFirst (second.flatMap words) :=
    sortLongestFirst_eq_of_mem_iff fun word hne => by
      rw [List.mem_flatMap, List.mem_flatMap]
      exact h word (by rintro rfl; cases hne)
  have heq : registerAll quotes lineComment first = registerAll quotes lineComment second := by
    rw [registerAll_eq, registerAll_eq, hsame hsymbols, hsame hkeywords]
  exact ⟨heq, fun text => by rw [heq]⟩

/-- Repetitions and empty words change nothing, and neither does their order. -/
theorem repeated_registrations_change_nothing :
    ["==", "<", "=", "="].destutter (· ≠ ·) = sortLongestFirst ["=", "", "<", "==", "="] ∧
    registerAll defaultQuotes none
        [.symbols ["=", "<"], .keywords ["if"], .symbols ["", "==", "="]] =
      registerAll defaultQuotes none
        [.keywords ["if", "if"], .symbols ["=="], .keywords [], .symbols ["<", "="]] := by
  obtain ⟨-, harranged, hregistered⟩ := registration_order_is_irrelevant
  refine ⟨harranged _ _ (by decide) ?_, (hregistered _ _ _ _ ?_ ?_).1⟩
  · have hmay : ["==", "<", "=", "="].Pairwise fun word next =>
        longerFirst word next = true ∨ word = next := by decide
    exact hmay.imp mayPrecede_iff.2
  · intro word hne
    simp only [List.mem_cons, List.not_mem_nil, or_false, exists_eq_or_imp, exists_eq_left,
      Registration.symbolWords]
    tauto
  · intro word hne
    simp only [List.mem_cons, List.not_mem_nil, or_false, exists_eq_or_imp, exists_eq_left,
      Registration.keywordWords]
    tauto

end Lexer

end TokenGrammar
