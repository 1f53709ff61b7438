/-
  TokenGrammar.Sorted

  Lists sorted by a strict order, without repetitions.  Main statements: sorting
  keeps exactly the members of a list (`mem_sorted`), and the result stands in
  the order (`pairwise_sorted`), so that it depends on the set of members alone.
-/

namespace TokenGrammar

variable {α : Type _}

/-- Put an element into a sorted list, unless the list has it already.  Two
    elements are the same if neither comes before the other. -/
def insertSorted (before : α → α → Bool) (x : α) : List α → List α
  | [] => [x]
  | y :: ys =>
    if before x y then x :: y :: ys
    else if before y x then y :: insertSorted before x ys
    else y :: ys

/-- The members of a list in the order `before`, each once. -/
def sorted (before : α → α → Bool) (xs : List α) : List α :=
  xs.foldr (insertSorted before) []

/-! ## Members -/

/-- Elements that no comparison tells apart are equal. -/
def Separates (before : α → α → Bool) : Prop :=
  ∀ x y, before x y = false → before y x = false → x = y

theorem mem_insertSorted {before : α → α → Bool} (sep : Separates before) {x z : α}
    {ys : List α} : z ∈ insertSorted before x ys ↔ z = x ∨ z ∈ ys := by
  induction ys with
  | nil => simp [insertSorted]
  | cons y ys ih =>
    unfold insertSorted
    split
    · simp
    · split
      · simp only [List.mem_cons, ih]
        constructor
        · rintro (h | h | h)
          · exact .inr (.inl h)
          · exact .inl h
          · exact .inr (.inr h)
        · rintro (h | h | h)
          · exact .inr (.inl h)
          · exact .inl h
          · exact .inr (.inr h)
      · next hxy hyx =>
        have same : x = y := sep x y (by simpa using hxy) (by simpa using hyx)
        subst same
        simp

/-- Sorting keeps exactly the members of a list. -/
theorem mem_sorted {before : α → α → Bool} (sep : Separates before) {z : α} {xs : List α} :
    z ∈ sorted before xs ↔ z ∈ xs := by
  induction xs with
  | nil => simp [sorted]
  | cons x xs ih =>
    have step : sorted before (x :: xs) = insertSorted before x (sorted before xs) := rfl
    rw [step, mem_insertSorted sep, ih, List.mem_cons]

/-! ## Order -/

theorem pairwise_insertSorted {before : α → α → Bool} (sep : Separates before)
    (trans : ∀ x y z, before x y = true → before y z = true → before x z = true)
    {x : α} {ys : List α} (h : ys.Pairwise (before · · = true)) :
    (insertSorted before x ys).Pairwise (before · · = true) := by
  induction ys with
  | nil => simp [insertSorted]
  | cons y ys ih =>
    obtain ⟨hy, hys⟩ := List.pairwise_cons.1 h
    unfold insertSorted
    split
    · next hxy =>
      refine List.pairwise_cons.2 ⟨fun z hz => ?_, h⟩
      rcases List.mem_cons.1 hz with rfl | hz
      · exact hxy
      · exact trans _ _ _ hxy (hy z hz)
    · split
      · next hyx =>
        refine List.pairwise_cons.2 ⟨fun z hz => ?_, ih hys⟩
        rcases (mem_insertSorted sep).1 hz with rfl | hz
        · exact hyx
        · exact hy z hz
      · exact h

/-- A sorted list stands in the order. -/
theorem pairwise_sorted {before : α → α → Bool} (sep : Separates before)
    (trans : ∀ x y z, before x y = true → before y z = true → before x z = true)
    (xs : List α) : (sorted before xs).Pairwise (before · · = true) := by
  induction xs with
  | nil => simp [sorted]
  | cons x xs ih => exact pairwise_insertSorted sep trans ih

end TokenGrammar
