/-
  TokenGrammar.Match.Rank

  A well-founded order on stacks, by which runs end.  Each frame has a weight,
  and stacks are compared from the bottom up: the lowest frame whose weight
  differs decides, whatever stands above it.  This order is well-founded among
  stacks of bounded height (`Rank.wellFounded_lower`), though a stack may grow
  while it descends.
-/

namespace TokenGrammar

-- ============================================================================
-- Weights
-- ============================================================================

/-- What is left to do for a frame: the branches that have not been tried, the
    elements that have not matched, the tokens that a repeated element may still
    match, and how far the attempt at the element has come. -/
structure Weight where
  branches : Nat
  elements : Nat
  tokens : Nat
  stage : Nat
  deriving DecidableEq, Repr

namespace Weight

/-- The first part that differs decides. -/
def Lighter (v w : Weight) : Prop :=
  v.branches < w.branches ∨ v.branches = w.branches ∧
    (v.elements < w.elements ∨ v.elements = w.elements ∧
      (v.tokens < w.tokens ∨ v.tokens = w.tokens ∧ v.stage < w.stage))

theorem Lighter.trans {u v w : Weight} (huv : u.Lighter v) (hvw : v.Lighter w) :
    u.Lighter w := by
  simp only [Lighter] at huv hvw ⊢
  omega

theorem wellFounded_lighter : WellFounded Lighter := by
  let lt := Nat.lt_wfRel
  let order := Prod.lex lt (Prod.lex lt (Prod.lex lt lt))
  let parts : Weight → Nat × Nat × Nat × Nat :=
    fun w => (w.branches, w.elements, w.tokens, w.stage)
  refine Subrelation.wf ?_ (InvImage.wf parts order.wf)
  rintro ⟨b, e, t, s⟩ ⟨b', e', t', s'⟩ h
  show Prod.Lex _ _ (b, e, t, s) (b', e', t', s')
  simp only [Lighter] at h
  rcases h with h | ⟨rfl, h | ⟨rfl, h | ⟨rfl, h⟩⟩⟩
  · exact .left _ _ h
  · exact .right _ (.left _ _ h)
  · exact .right _ (.right _ (.left _ _ h))
  · exact .right _ (.right _ (.right _ h))

end Weight

-- ============================================================================
-- Stacks of weights
-- ============================================================================

/-- The order on stacks of weights, the lowest frame first. -/
inductive Lower : List Weight → List Weight → Prop where
  | here {v w : Weight} {vs ws : List Weight} (h : v.Lighter w) : Lower (v :: vs) (w :: ws)
  | above {w : Weight} {vs ws : List Weight} (h : Lower vs ws) : Lower (w :: vs) (w :: ws)

theorem Lower.append {v w : Weight} {vs ws : List Weight} (h : v.Lighter w)
    (common : List Weight) : Lower (common ++ v :: vs) (common ++ w :: ws) := by
  induction common with
  | nil => exact .here h
  | cons _ _ ih => exact .above ih

/-- The order among stacks of at most `height` frames. -/
def LowerWithin (height : Nat) (vs ws : List Weight) : Prop :=
  vs.length ≤ height ∧ Lower vs ws

theorem acc_of_length_le {height : Nat} {ws : List Weight} (h : ws.length ≤ height) :
    Acc (LowerWithin height) ws := by
  induction height generalizing ws with
  | zero =>
    refine Acc.intro ws fun vs hvs => ?_
    obtain rfl : ws = [] := List.length_eq_zero_iff.1 (Nat.le_zero.1 h)
    cases hvs.2
  | succ height ih =>
    have main : ∀ w, Acc Weight.Lighter w → ∀ ws, Acc (LowerWithin height) ws →
        Acc (LowerWithin (height + 1)) (w :: ws) := by
      intro w hw
      induction hw with
      | intro w _ lighter =>
        intro ws hws
        induction hws with
        | intro ws _ within =>
          refine Acc.intro _ fun vs hvs => ?_
          obtain ⟨hlength, hlower⟩ := hvs
          cases hlower with
          | here hvw =>
            exact lighter _ hvw _ (ih (by simpa using hlength))
          | above hvs => exact within _ ⟨by simpa using hlength, hvs⟩
    cases ws with
    | nil => exact Acc.intro [] fun vs hvs => nomatch hvs.2
    | cons w ws =>
      exact main w (Weight.wellFounded_lighter.apply w) ws (ih (by simpa using h))

-- ============================================================================
-- Ranks
-- ============================================================================

/-- The weights of a stack from the bottom up, and how high a stack may grow. -/
structure Rank where
  height : Nat
  weights : List Weight

namespace Rank

/-- The order on ranks: the bound stays, and the stack keeps to it and
    descends. -/
def IsLower (r s : Rank) : Prop := r.height = s.height ∧ LowerWithin s.height r.weights s.weights

theorem acc_of_length_le {height : Nat} {ws : List Weight} (h : ws.length ≤ height) :
    Acc IsLower ⟨height, ws⟩ := by
  have within : Acc (LowerWithin height) ws := TokenGrammar.acc_of_length_le h
  induction within with
  | intro ws _ ih =>
    refine Acc.intro _ fun r hr => ?_
    obtain ⟨bound, vs⟩ := r
    obtain ⟨hbound, hvs⟩ := hr
    dsimp only at hbound hvs
    subst hbound
    exact ih vs hvs hvs.1

/-- There is no endless descent. -/
theorem wellFounded_isLower : WellFounded IsLower := by
  refine ⟨fun s => Acc.intro s fun r hr => ?_⟩
  obtain ⟨bound, vs⟩ := r
  obtain ⟨hbound, hvs⟩ := hr
  dsimp only at hbound
  exact acc_of_length_le (hbound ▸ hvs.1)

instance : WellFoundedRelation Rank := ⟨IsLower, wellFounded_isLower⟩

end Rank

end TokenGrammar
