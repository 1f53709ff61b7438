/-
  TokenGrammar.Proofs.Match.Scanners

  Terminals as scanners.  A scanner moves a reader as it reads, and the reader stays where
  it got to whether the scanner comes to a result or misses; putting it back is left to
  whoever asked.  Every terminal is matched by a scanner that comes to the same result
  (`Terminal.matchAt_eq_outcome`), and no scanner takes a reader back or beyond the end of
  its stream (`Terminal.keeps_onward_scan`).
-/

import Mathlib.Order.Defs.Unbundled
import TokenGrammar.Proofs.Match.Onward

namespace TokenGrammar

/-- Something that moves a state on, and comes to a result or misses. -/
abbrev Scanner (σ α : Type) : Type := EStateM Miss σ α

namespace Scanner

variable {σ τ α β : Type} {state : σ}

-- ============================================================================
-- Running
-- ============================================================================

/-- The state behind a scanner, whether it came to a result or missed. -/
def behind : EStateM.Result Miss σ α → σ
  | .ok _ state => state
  | .error _ state => state

/-- What a scanner comes to.  Where a miss leaves the state is forgotten. -/
def outcome (together : α → σ → β) : EStateM.Result Miss σ α → Except Miss β
  | .ok result state => .ok (together result state)
  | .error miss _ => .error miss

/-- A scanner of a state that holds what the outer state holds, and more. -/
def within (enter : σ → τ) (leave : τ → σ) (scanner : Scanner τ α) : Scanner σ α := fun state =>
  match scanner (enter state) with
  | .ok result inner => .ok result (leave inner)
  | .error miss inner => .error miss (leave inner)

@[simp] theorem get_apply : (get : Scanner σ σ) state = .ok state state := rfl

@[simp] theorem modify_apply {change : σ → σ} :
    (modify change : Scanner σ Unit) state = .ok () (change state) := rfl

@[simp] theorem modifyGet_apply {change : σ → α × σ} :
    (modifyGet change : Scanner σ α) state = .ok (change state).1 (change state).2 := rfl

@[simp] theorem throw_apply {miss : Miss} :
    (throw miss : Scanner σ α) state = .error miss state := rfl

@[simp] theorem pure_apply {result : α} :
    (pure result : Scanner σ α) state = .ok result state := rfl

@[simp] theorem bind_apply {scanner : Scanner σ α} {goOn : α → Scanner σ β} :
    (scanner >>= goOn) state =
      match scanner state with
      | .ok result state => goOn result state
      | .error miss state => .error miss state := by
  show EStateM.bind _ _ _ = _
  unfold EStateM.bind
  cases scanner state <;> rfl

@[simp] theorem within_apply {enter : σ → τ} {leave : τ → σ} {scanner : Scanner τ α} :
    scanner.within enter leave state =
      match scanner (enter state) with
      | .ok result inner => .ok result (leave inner)
      | .error miss inner => .error miss (leave inner) := rfl

@[simp] theorem ite_apply {p : Prop} [Decidable p] {yes no : Scanner σ α} :
    (if p then yes else no : Scanner σ α) state = if p then yes state else no state := by
  split <;> rfl

-- ============================================================================
-- What every scanner keeps
-- ============================================================================

/-- Whether the state behind a scanner is always related to the one before it, also if the
    scanner misses. -/
def Keeps (R : σ → σ → Prop) (scanner : Scanner σ α) : Prop :=
  ∀ state : σ, R state (behind (scanner state))

variable {R : σ → σ → Prop}

section
variable [Std.Refl R]

theorem keeps_get : Keeps R (get : Scanner σ σ) := fun state => Std.Refl.refl state

theorem keeps_throw (miss : Miss) : Keeps R (throw miss : Scanner σ α) :=
  fun state => Std.Refl.refl state

theorem keeps_pure (result : α) : Keeps R (pure result : Scanner σ α) :=
  fun state => Std.Refl.refl state

end

theorem keeps_modify {change : σ → σ} (h : ∀ state, R state (change state)) :
    Keeps R (modify change : Scanner σ Unit) := h

theorem keeps_modifyGet {change : σ → α × σ} (h : ∀ state, R state (change state).2) :
    Keeps R (modifyGet change : Scanner σ α) := h

theorem Keeps.bind [IsTrans σ R] {scanner : Scanner σ α} {goOn : α → Scanner σ β}
    (h : scanner.Keeps R) (hgoOn : ∀ result, (goOn result).Keeps R) :
    (scanner >>= goOn).Keeps R := by
  intro state
  have hfirst := h state
  rw [bind_apply]
  cases hscan : scanner state with
  | error miss between =>
      rw [hscan] at hfirst
      exact hfirst
  | ok result between =>
      rw [hscan] at hfirst
      exact IsTrans.trans _ _ _ hfirst (hgoOn result between)

/-- What is kept behind a scanner is kept where it comes to a result. -/
theorem Keeps.of_outcome {scanner : Scanner σ α} (h : scanner.Keeps R) {together : α → σ → β}
    {found : β} (hfound : outcome together (scanner state) = .ok found) :
    ∃ result between, found = together result between ∧ R state between := by
  have hbehind := h state
  cases hscan : scanner state with
  | error miss between =>
      rw [hscan] at hfound
      cases hfound
  | ok result between =>
      rw [hscan] at hfound hbehind
      exact ⟨result, between, (Except.ok.inj hfound).symm, hbehind⟩

theorem Keeps.within {Q : τ → τ → Prop} {enter : σ → τ} {leave : τ → σ} {scanner : Scanner τ α}
    (h : scanner.Keeps Q) (hleave : ∀ state inner, Q (enter state) inner → R state (leave inner)) :
    (scanner.within enter leave).Keeps R := by
  intro state
  have hinner := hleave state _ (h (enter state))
  unfold Scanner.within
  cases hscan : scanner (enter state) with
  | ok result inner =>
      rw [hscan] at hinner
      exact hinner
  | error miss inner =>
      rw [hscan] at hinner
      exact hinner

theorem Keeps.ite {p : Prop} [Decidable p] {yes no : Scanner σ α} (hyes : yes.Keeps R)
    (hno : no.Keeps R) : (if p then yes else no : Scanner σ α).Keeps R := by
  split
  · exact hyes
  · exact hno

end Scanner

instance : IsPreorder Reader Reader.Onward where
  refl := Reader.Onward.refl
  trans _ _ _ := Reader.Onward.trans

-- ============================================================================
-- Numbers
-- ============================================================================

namespace PartialNumber

/-- The reader of the second number is further on than that of the first one. -/
def Onward (number further : PartialNumber) : Prop := number.reader.Onward further.reader

instance : IsPreorder PartialNumber Onward where
  refl number := Reader.Onward.refl number.reader
  trans _ _ _ := Reader.Onward.trans

/-- Scan that no point follows. -/
def scanEnd (mismatch : Mismatch) : Scanner PartialNumber Unit := do
  let number ← get
  if number.next.isSymbol "." then throw ⟨number.reader.position, mismatch⟩ else return ()

/-- Scan a sign, if one comes next. -/
def scanSign : Scanner PartialNumber Unit := modify takeSign

/-- Scan the rest of an exponent.  `rest` follows the marker in the token at `position`. -/
def scanExponent (position : Nat) (rest : List Char) : Scanner PartialNumber Unit :=
  if rest.isEmpty then do
    scanSign
    let signed ← get
    modify take
    if signed.next.cls == .identifier && isDecimal signed.next.text.toList then
      scanEnd .pointAfterExponent
    else throw ⟨signed.reader.position, .expected .exponentDigits signed.next⟩
  else if isDecimal rest then scanEnd .pointAfterExponent
  else throw ⟨position, .invalidExponent (String.ofList rest)⟩

/-- Scan a fraction behind the point, and the exponent. -/
def scanFraction (base : NumberBase) : Scanner PartialNumber Unit := do
  let number ← get
  let position := number.reader.position
  modify take
  if number.next.cls == .identifier then
    match readDigits base .fraction false number.next.text.toList with
    | .error mismatch => throw ⟨position, mismatch⟩
    | .ok (some rest) => scanExponent position rest
    | .ok none =>
      match base with
      | .hex => throw ⟨position, .missingHexExponent⟩
      | .decimal => scanEnd .secondPoint
  else throw ⟨position, .expected .fractionDigits number.next⟩

/-- Scan what follows the first token of a number, which is at `position`. -/
def scanRest (position : Nat) : Scanner PartialNumber Unit := do
  let number ← get
  let (base, digits) := splitBase number.text.toList
  match readDigits base .integer false digits with
  | .error mismatch => throw ⟨position, mismatch⟩
  | .ok (some rest) => scanExponent position rest
  | .ok none =>
    if number.next.isSymbol "." then do
      modify take
      scanFraction base
    else return ()

theorem withoutPoint_eq_outcome (number : PartialNumber) (mismatch : Mismatch) :
    number.withoutPoint mismatch =
      Scanner.outcome (fun _ number => number) (scanEnd mismatch number) := by
  unfold withoutPoint scanEnd
  simp only [Scanner.bind_apply, Scanner.get_apply, Scanner.ite_apply]
  split <;> rfl

theorem readExponent_eq_outcome (number : PartialNumber) (position : Nat) (rest : List Char) :
    number.readExponent position rest =
      Scanner.outcome (fun _ number => number) (scanExponent position rest number) := by
  unfold readExponent scanExponent scanSign
  simp only [Scanner.ite_apply, Scanner.bind_apply, Scanner.get_apply, Scanner.modify_apply]
  split
  · split
    · exact withoutPoint_eq_outcome _ _
    · rfl
  · split
    · exact withoutPoint_eq_outcome _ _
    · rfl

theorem readFraction_eq_outcome (number : PartialNumber) (base : NumberBase) :
    number.readFraction base =
      Scanner.outcome (fun _ number => number) (scanFraction base number) := by
  unfold readFraction scanFraction
  simp only [Scanner.ite_apply, Scanner.bind_apply, Scanner.get_apply, Scanner.modify_apply]
  split
  · rcases readDigits base .fraction false number.next.text.toList with mismatch | rest
    · rfl
    · cases rest with
      | some rest => exact readExponent_eq_outcome _ _ _
      | none =>
          cases base with
          | hex => rfl
          | decimal => exact withoutPoint_eq_outcome _ _
  · rfl

theorem readRest_eq_outcome (number : PartialNumber) (position : Nat) :
    number.readRest position =
      Scanner.outcome (fun _ number => number) (scanRest position number) := by
  unfold readRest scanRest
  simp only [Scanner.bind_apply, Scanner.get_apply]
  obtain ⟨base, digits⟩ := splitBase number.text.toList
  dsimp only
  rcases readDigits base .integer false digits with mismatch | rest
  · rfl
  · cases rest with
    | some rest => exact readExponent_eq_outcome _ _ _
    | none =>
        simp only [Scanner.ite_apply, Scanner.bind_apply, Scanner.modify_apply]
        split
        · exact readFraction_eq_outcome _ _
        · rfl

theorem onward_take (number : PartialNumber) : number.Onward number.take :=
  (Reader.Onward.refl number.reader).consume

theorem onward_takeSign (number : PartialNumber) : number.Onward number.takeSign := by
  unfold takeSign
  split
  · exact onward_take number
  · exact Reader.Onward.refl number.reader

theorem keeps_onward_take : (modify take : Scanner PartialNumber Unit).Keeps Onward :=
  Scanner.keeps_modify onward_take

theorem keeps_onward_scanSign : scanSign.Keeps Onward :=
  Scanner.keeps_modify onward_takeSign

theorem keeps_onward_scanEnd (mismatch : Mismatch) : (scanEnd mismatch).Keeps Onward :=
  Scanner.keeps_get.bind fun _ => (Scanner.keeps_throw _).ite (Scanner.keeps_pure _)

theorem keeps_onward_scanExponent (position : Nat) (rest : List Char) :
    (scanExponent position rest).Keeps Onward := by
  refine Scanner.Keeps.ite ?_ ((keeps_onward_scanEnd _).ite (Scanner.keeps_throw _))
  exact keeps_onward_scanSign.bind fun _ => Scanner.keeps_get.bind fun _ =>
    keeps_onward_take.bind fun _ => (keeps_onward_scanEnd _).ite (Scanner.keeps_throw _)

theorem keeps_onward_scanFraction (base : NumberBase) : (scanFraction base).Keeps Onward := by
  refine Scanner.keeps_get.bind fun number => keeps_onward_take.bind fun _ =>
    Scanner.Keeps.ite ?_ (Scanner.keeps_throw _)
  rcases readDigits base .fraction false number.next.text.toList with mismatch | rest
  · exact Scanner.keeps_throw _
  · cases rest with
    | some rest => exact keeps_onward_scanExponent _ _
    | none =>
        cases base with
        | hex => exact Scanner.keeps_throw _
        | decimal => exact keeps_onward_scanEnd _

theorem keeps_onward_scanRest (position : Nat) : (scanRest position).Keeps Onward := by
  refine Scanner.keeps_get.bind fun number => ?_
  obtain ⟨base, digits⟩ := splitBase number.text.toList
  dsimp only
  rcases readDigits base .integer false digits with mismatch | rest
  · exact Scanner.keeps_throw _
  · cases rest with
    | some rest => exact keeps_onward_scanExponent _ _
    | none =>
        exact (keeps_onward_take.bind fun _ => keeps_onward_scanFraction base).ite
          (Scanner.keeps_pure _)

theorem onward_of_withoutPoint {number result : PartialNumber} {mismatch : Mismatch}
    (h : number.withoutPoint mismatch = .ok result) : number.Onward result := by
  rw [withoutPoint_eq_outcome] at h
  obtain ⟨_, _, rfl, honward⟩ := (keeps_onward_scanEnd mismatch).of_outcome h
  exact honward

theorem onward_of_readFraction {number result : PartialNumber} {base : NumberBase}
    (h : number.readFraction base = .ok result) : number.Onward result := by
  rw [readFraction_eq_outcome] at h
  obtain ⟨_, _, rfl, honward⟩ := (keeps_onward_scanFraction base).of_outcome h
  exact honward

end PartialNumber

-- ============================================================================
-- Terminals
-- ============================================================================

/-- Scan the first token of a terminal. -/
def scanFirst (adjacent : Bool) : Scanner Reader ReadToken :=
  modifyGet fun reader => (reader.next adjacent, (reader.next adjacent).after)

/-- Scan the very next token. -/
def scanToken : Scanner Reader Token := modifyGet Reader.readAdjacent

/-- Scan a number.  The reader goes where the number leaves it. -/
def scanNumber (adjacent : Bool) : Scanner Reader Matched := do
  let first ← scanFirst adjacent
  let token := first.token
  if token.cls == .identifier && token.text.toList.head?.any Char.isDigit then do
    let number ← Scanner.within (PartialNumber.mk token.text token.span.stop)
      PartialNumber.reader do PartialNumber.scanRest first.position; get
    return ⟨.number, number.text, ⟨token.span.start, number.stop⟩, first.position⟩
  else throw ⟨first.position, .expected (.terminal (.ofCategory .number)) token⟩

/-- Scan what a string holds. -/
def scanPayload : Scanner Reader String := do
  let reader ← get
  if reader.peekAdjacent.cls == .comment then do
    let payload ← scanToken
    return payload.text
  else return ""

/-- Scan a string.  A closing quote that is none is consumed all the same. -/
def scanString (adjacent : Bool) : Scanner Reader Matched := do
  let first ← scanFirst adjacent
  let quote := first.token
  if quote.cls == .symbol && isStringQuote quote.text then do
    let text ← scanPayload
    let reader ← get
    let close ← scanToken
    if close.isSymbol quote.text then
      return ⟨.string, text, quote.span.through close.span, first.position⟩
    else throw ⟨reader.position, .unterminatedString quote.text⟩
  else throw ⟨first.position, .expected (.terminal (.ofCategory .string)) quote⟩

namespace Terminal

/-- Scan a terminal that is a single token. -/
def scanSingle (terminal : Terminal) (adjacent : Bool) : Scanner Reader Matched := do
  let first ← scanFirst adjacent
  let token := first.token
  if terminal.holds token then
    return ⟨terminal.classOf token, token.text, token.span, first.position⟩
  else throw ⟨first.position, .expected (.terminal terminal) token⟩

/-- Scan a terminal. -/
def scan (terminal : Terminal) (adjacent : Bool) : Scanner Reader Matched :=
  match terminal with
  | .ofCategory .number => scanNumber adjacent
  | .ofCategory .string => scanString adjacent
  | _ => terminal.scanSingle adjacent

end Terminal

theorem matchNumber_eq_outcome (adjacent : Bool) (reader : Reader) :
    matchNumber adjacent reader = Scanner.outcome Prod.mk (scanNumber adjacent reader) := by
  unfold matchNumber scanNumber scanFirst
  simp only [Scanner.bind_apply, Scanner.modifyGet_apply, Scanner.ite_apply]
  split
  · rw [PartialNumber.readRest_eq_outcome]
    simp only [Scanner.bind_apply, Scanner.within_apply, Scanner.get_apply]
    cases PartialNumber.scanRest (reader.next adjacent).position _ <;> rfl
  · rfl

theorem matchString_eq_outcome (adjacent : Bool) (reader : Reader) :
    matchString adjacent reader = Scanner.outcome Prod.mk (scanString adjacent reader) := by
  unfold matchString scanString scanPayload scanFirst scanToken
  simp only [Scanner.bind_apply, Scanner.modifyGet_apply, Scanner.ite_apply, Scanner.get_apply,
    Scanner.pure_apply, Reader.readAdjacent]
  split
  · split <;> dsimp only <;> split <;> rfl
  · rfl

namespace Terminal

theorem matchSingle_eq_outcome (terminal : Terminal) (adjacent : Bool) (reader : Reader) :
    terminal.matchSingle adjacent reader =
      Scanner.outcome Prod.mk (terminal.scanSingle adjacent reader) := by
  unfold matchSingle scanSingle scanFirst
  simp only [Scanner.bind_apply, Scanner.modifyGet_apply, Scanner.ite_apply]
  split <;> rfl

/-- A terminal is matched by a scanner: it comes to the same result and the same misses. -/
theorem matchAt_eq_outcome (terminal : Terminal) (adjacent : Bool) (reader : Reader) :
    terminal.matchAt adjacent reader =
      Scanner.outcome Prod.mk (terminal.scan adjacent reader) := by
  cases terminal with
  | literal text => exact matchSingle_eq_outcome _ adjacent reader
  | ofCategory category =>
      cases category with
      | number => exact matchNumber_eq_outcome adjacent reader
      | string => exact matchString_eq_outcome adjacent reader
      | _ => exact matchSingle_eq_outcome _ adjacent reader

end Terminal

theorem keeps_onward_scanFirst (adjacent : Bool) : (scanFirst adjacent).Keeps Reader.Onward :=
  Scanner.keeps_modifyGet fun reader => reader.onward_next adjacent

theorem keeps_onward_scanToken : scanToken.Keeps Reader.Onward :=
  Scanner.keeps_modifyGet fun reader => (Reader.Onward.refl reader).consume

theorem keeps_onward_scanPayload : scanPayload.Keeps Reader.Onward :=
  Scanner.keeps_get.bind fun _ =>
    (keeps_onward_scanToken.bind fun _ => Scanner.keeps_pure _).ite (Scanner.keeps_pure _)

theorem keeps_onward_scanNumber (adjacent : Bool) :
    (scanNumber adjacent).Keeps Reader.Onward := by
  refine (keeps_onward_scanFirst adjacent).bind fun first =>
    Scanner.Keeps.ite ?_ (Scanner.keeps_throw _)
  have hrest := (PartialNumber.keeps_onward_scanRest first.position).bind fun _ =>
    Scanner.keeps_get
  have hleave : ∀ (reader : Reader) (number : PartialNumber),
      PartialNumber.Onward ⟨first.token.text, first.token.span.stop, reader⟩ number →
        reader.Onward number.reader := fun _ _ h => h
  exact (hrest.within hleave).bind fun _ => Scanner.keeps_pure _

theorem keeps_onward_scanString (adjacent : Bool) : (scanString adjacent).Keeps Reader.Onward :=
  (keeps_onward_scanFirst adjacent).bind fun _ =>
    (keeps_onward_scanPayload.bind fun _ => Scanner.keeps_get.bind fun _ =>
      keeps_onward_scanToken.bind fun _ =>
        (Scanner.keeps_pure _).ite (Scanner.keeps_throw _)).ite (Scanner.keeps_throw _)

/-- Whether a terminal is found or missed, the reader goes onward. -/
theorem Terminal.keeps_onward_scan (terminal : Terminal) (adjacent : Bool) :
    (terminal.scan adjacent).Keeps Reader.Onward := by
  unfold Terminal.scan
  split
  · exact keeps_onward_scanNumber adjacent
  · exact keeps_onward_scanString adjacent
  · exact (keeps_onward_scanFirst adjacent).bind fun _ =>
      (Scanner.keeps_pure _).ite (Scanner.keeps_throw _)

theorem Terminal.onward_of_scan {terminal : Terminal} {adjacent : Bool} {reader : Reader}
    {result : EStateM.Result Miss Reader Matched} (h : terminal.scan adjacent reader = result) :
    reader.Onward (Scanner.behind result) := h ▸ terminal.keeps_onward_scan adjacent reader

/-- Matching a terminal takes the reader onward. -/
theorem Terminal.onward_of_matchAt {terminal : Terminal} {adjacent : Bool} {reader behind : Reader}
    {matched : Matched} (h : terminal.matchAt adjacent reader = .ok (matched, behind)) :
    reader.Onward behind := by
  rw [terminal.matchAt_eq_outcome] at h
  obtain ⟨_, _, hfound, honward⟩ := (terminal.keeps_onward_scan adjacent).of_outcome h
  obtain ⟨-, rfl⟩ := Prod.mk.inj hfound
  exact honward

end TokenGrammar
