/-
  TokenGrammar.Proofs.Lexer.Lines

  Lexing is local to lines.  If no registered word holds the line break that a line ends
  with, a pass of a lexer over the line does the same whatever stands behind: neither
  comments and strings nor words and runs of word characters get over the break
  (`Lexer.scan_append_break`).
-/

import Mathlib.Data.List.TakeWhile
import TokenGrammar.Proofs.Lexer.Scanning

namespace TokenGrammar

/-- Whether a text is at its end or at a line break. -/
def AtBreak (text : List Char) : Prop := ∀ c ∈ text.head?, isLineBreak c = true

/-- Whether no line break stands in some word. -/
def StaysInLine (word : List Char) : Prop := ∀ c ∈ word, isLineBreak c = false

/-- Whether no registered word, nor what begins a comment, holds a line break. -/
def Lexer.StaysInLines (lexer : Lexer) : Prop :=
  ∀ word ∈ lexer.symbols ++ lexer.keywords ++ lexer.lineComment.toList, StaysInLine word.toList

/-- Whether a text is at its end, or at a line break that stands in no registered word,
    nor in what begins a comment. -/
structure Lexer.StopsAt (lexer : Lexer) (text : List Char) : Prop where
  atBreak : AtBreak text
  not_mem : ∀ word ∈ lexer.symbols ++ lexer.keywords ++ lexer.lineComment.toList,
    ∀ c ∈ text.head?, c ∉ word.toList

instance (word : List Char) : Decidable (StaysInLine word) :=
  List.decidableBAll (isLineBreak · = false) word

instance (lexer : Lexer) : Decidable lexer.StaysInLines :=
  List.decidableBAll (fun word : String => StaysInLine word.toList) _

/-- A scan of a text that goes on. -/
def Scan.followedBy (scan : Scan) (rest : List Char) : Scan :=
  { scan with rest := scan.rest ++ rest }

theorem AtBreak.nil : AtBreak [] := fun _ h => nomatch h

theorem AtBreak.cons {c : Char} (h : isLineBreak c = true) (rest : List Char) :
    AtBreak (c :: rest) := by
  rintro _ ⟨⟩
  exact h

/-- If no registered word holds a line break, all of them stop a lexer. -/
theorem Lexer.StaysInLines.stopsAt {lexer : Lexer} (hlines : lexer.StaysInLines)
    {text : List Char} (h : AtBreak text) : lexer.StopsAt text where
  atBreak := h
  not_mem := by
    intro word hword c hc hmem
    have hbreak := hlines word hword c hmem
    rw [h c hc] at hbreak
    cases hbreak

theorem AtBreak.eq_false {text : List Char} (h : AtBreak text) {p : Char → Bool}
    (hp : ∀ c, isLineBreak c = true → p c = false) : ∀ c ∈ text.head?, p c = false :=
  fun c hc => hp c (h c hc)

theorem ne_of_isLineBreak {c other : Char} (h : isLineBreak c = true)
    (hother : isLineBreak other = false) : other ≠ c := by
  rintro rfl
  rw [h] at hother
  cases hother

theorem isWord_eq_false_of_isLineBreak {c : Char} (h : isLineBreak c = true) :
    isWord c = false := by
  rw [isLineBreak, Bool.or_eq_true, beq_iff_eq, beq_iff_eq] at h
  rcases h with rfl | rfl <;> decide

theorem isWhiteSpace_of_isLineBreak {c : Char} (h : isLineBreak c = true) :
    Unicode.isWhiteSpace c = true := by
  rw [isLineBreak, Bool.or_eq_true, beq_iff_eq, beq_iff_eq] at h
  rcases h with rfl | rfl <;> decide

theorem lineEnd?_eq_none_of_ne {c : Char} (hfeed : c ≠ '\n') (hreturn : c ≠ '\r')
    (text : List Char) : lineEnd? (c :: text) = none := by
  rw [lineEnd?]
  · rintro _ ⟨⟩
    exact hfeed rfl
  · rintro _ ⟨⟩
    exact hreturn rfl

theorem IsBare.isLineBreak_eq {c : Char} {text : List Char} (h : IsBare c text) :
    isLineBreak c = false := by
  by_contra hbreak
  exact h.ne_of_isWhiteSpace c (isWhiteSpace_of_isLineBreak (Bool.not_eq_false _ ▸ hbreak)) rfl

-- ============================================================================
-- Runs and words
-- ============================================================================

/-- The blanks that a text begins with, and what follows them. -/
theorem exists_blanks {c : Char} (h : isBlank c = true) (text : List Char) :
    ∃ run rest, c :: text = run ++ rest ∧ run ≠ [] ∧ (∀ c ∈ run, isBlank c = true) ∧
      ∀ c ∈ rest.head?, isBlank c = false := by
  refine ⟨(c :: text).takeWhile isBlank, (c :: text).dropWhile isBlank,
    List.takeWhile_append_dropWhile.symm, ?_, fun _ => List.mem_takeWhile_imp,
    eq_false_of_mem_head?_dropWhile⟩
  rw [List.takeWhile_cons_of_pos h]
  exact List.cons_ne_nil _ _

section Runs

variable {p : Char → Bool} {rest : List Char}

theorem takeWhile_append_of_head (h : ∀ c ∈ rest.head?, p c = false) (text : List Char) :
    (text ++ rest).takeWhile p = text.takeWhile p := by
  induction text with
  | nil =>
      cases rest with
      | nil => rfl
      | cons c rest => exact List.takeWhile_cons_of_neg (by rw [h c rfl]; decide)
  | cons c text ih =>
      rw [List.cons_append, List.takeWhile_cons, List.takeWhile_cons, ih]

theorem dropWhile_append_of_head (h : ∀ c ∈ rest.head?, p c = false) (text : List Char) :
    (text ++ rest).dropWhile p = text.dropWhile p ++ rest := by
  induction text with
  | nil =>
      cases rest with
      | nil => rfl
      | cons c rest => exact List.dropWhile_cons_of_neg (by rw [h c rfl]; decide)
  | cons c text ih =>
      rw [List.cons_append, List.dropWhile_cons, List.dropWhile_cons, ih]
      split <;> rfl

/-- A run ends in front of a character without the property. -/
theorem scanRun_append (h : ∀ c ∈ rest.head?, p c = false) (cls : TokenClass) (c : Char)
    (text : List Char) :
    scanRun cls p (c :: (text ++ rest)) = (scanRun cls p (c :: text)).map (·.followedBy rest) := by
  rw [scanRun, ← List.cons_append, takeWhile_append_of_head h, dropWhile_append_of_head h, scanRun]
  split <;> rfl

end Runs

section Words

variable {rest : List Char}

/-- A word gets over no character that it does not hold. -/
theorem afterWord?_append_of_head {word : List Char} (h : ∀ c ∈ rest.head?, c ∉ word)
    (text : List Char) :
    afterWord? word (text ++ rest) = (afterWord? word text).map (· ++ rest) := by
  induction word generalizing text with
  | nil => rfl
  | cons w word ih =>
      cases text with
      | cons c text =>
          rw [List.cons_append, afterWord?, afterWord?]
          split
          · exact ih (fun c hc => List.not_mem_of_not_mem_cons (h c hc)) text
          · rfl
      | nil =>
          cases rest with
          | nil => rfl
          | cons c rest => exact if_neg (List.ne_of_not_mem_cons (h c rfl)).symm

theorem isPrefixOf_eq_isSome_afterWord? (word text : List Char) :
    word.isPrefixOf text = (afterWord? word text).isSome := by
  induction word generalizing text with
  | nil => rfl
  | cons w word ih =>
      cases text with
      | nil => rfl
      | cons c text =>
          rw [List.isPrefixOf, afterWord?, ih]
          by_cases hwc : w = c
          · rw [if_pos hwc, beq_iff_eq.2 hwc, Bool.true_and]
          · rw [if_neg hwc, beq_eq_false_iff_ne.2 hwc]
            rfl

theorem isPrefixOf_append_of_head {word : List Char} (h : ∀ c ∈ rest.head?, c ∉ word)
    (text : List Char) : word.isPrefixOf (text ++ rest) = word.isPrefixOf text := by
  rw [isPrefixOf_eq_isSome_afterWord?, isPrefixOf_eq_isSome_afterWord?,
    afterWord?_append_of_head h, Option.isSome_map]

variable {cls : TokenClass} {mayFollow : List Char → List Char → Bool}

theorem scanWord_append_of_head {words : List String}
    (h : ∀ word ∈ words, ∀ c ∈ rest.head?, c ∉ word.toList)
    (hmay : ∀ word behind, mayFollow word (behind ++ rest) = mayFollow word behind)
    (text : List Char) :
    scanWord cls mayFollow words (text ++ rest) =
      (scanWord cls mayFollow words text).map (·.followedBy rest) := by
  induction words with
  | nil => rfl
  | cons word words ih =>
      have hlater := ih fun word hword => h word (List.mem_cons_of_mem _ hword)
      have hfirst := afterWord?_append_of_head (h word List.mem_cons_self) text
      simp only [scanWord, List.findSome?_cons] at hlater ⊢
      rw [hfirst, hlater]
      cases word.toList with
      | nil => rfl
      | cons c cs =>
          cases afterWord? (c :: cs) text with
          | none => rfl
          | some behind =>
              simp only [Option.map_some, hmay]
              cases mayFollow (c :: cs) behind <;> rfl

/-- A line break ends a keyword as the end of the text does. -/
theorem endsOnBoundary_append_break (hrest : AtBreak rest) (word behind : List Char) :
    endsOnBoundary word (behind ++ rest) = endsOnBoundary word behind := by
  cases behind with
  | cons c behind => rfl
  | nil =>
      unfold endsOnBoundary
      cases word.getLast? with
      | none => rfl
      | some final =>
          cases rest with
          | nil => rfl
          | cons c rest =>
              simp [isWord_eq_false_of_isLineBreak (hrest c rfl)]

end Words

-- ============================================================================
-- Strings
-- ============================================================================

section Strings

variable {quote : Char} {rest : List Char}

theorem payload_of_break (hrest : AtBreak rest) : payload quote rest = ([], rest) := by
  cases rest with
  | nil => rfl
  | cons c rest =>
      have hbreak := hrest c rfl
      rw [payload, if_pos (by rw [hbreak]; rfl)]
      exact (ne_of_isLineBreak hbreak (by decide)).symm

theorem payload_append_break (hrest : AtBreak rest) (text : List Char) :
    payload quote (text ++ rest) = ((payload quote text).1, (payload quote text).2 ++ rest) := by
  fun_induction payload quote text with
  | case1 => exact payload_of_break hrest
  | case2 =>
      cases rest with
      | nil => rfl
      | cons c rest => exact if_pos (hrest c rfl)
  | case3 c text hbreak => exact if_pos hbreak
  | case4 c text hbreak held left heq ih =>
      rw [heq] at ih
      simp only [List.cons_append, payload, if_neg hbreak, ih]
  | case5 c text hescape hstops =>
      rw [List.cons_append, payload, if_pos hstops]
      exact hescape
  | case6 c text hescape hgoesOn held left heq ih =>
      rw [heq] at ih
      rw [List.cons_append, payload, if_neg hgoesOn, ih]
      exact hescape

theorem scanQuoted_append_break (hquote : isLineBreak quote = false) (hrest : AtBreak rest)
    (text : List Char) :
    scanQuoted quote (text ++ rest) = (scanQuoted quote text).followedBy rest := by
  unfold scanQuoted
  rw [payload_append_break hrest]
  rcases payload quote text with ⟨held, _ | ⟨c, left⟩⟩
  · cases rest with
    | nil => rfl
    | cons c rest =>
        exact if_neg (ne_of_isLineBreak (hrest c rfl) hquote).symm
  · simp only [List.cons_append]
    split <;> rfl

end Strings

-- ============================================================================
-- Passes
-- ============================================================================

namespace Lexer

variable {lexer : Lexer} {rest : List Char}

theorem scanComment_append_break (hrest : lexer.StopsAt rest) (c : Char) (text : List Char) :
    lexer.scanComment (c :: (text ++ rest)) =
      (lexer.scanComment (c :: text)).map (·.followedBy rest) := by
  unfold scanComment
  rcases hopening : lexer.lineComment with _ | opening
  · rfl
  · have hword : ∀ c ∈ rest.head?, c ∉ opening.toList := hrest.not_mem opening (by simp [hopening])
    dsimp only
    rw [← List.cons_append, isPrefixOf_append_of_head hword, List.cons_append]
    split
    · exact scanRun_append (hrest.atBreak.eq_false fun c hc => by rw [hc]; rfl) _ _ _
    · rfl

theorem scanWords_append_break (hrest : lexer.StopsAt rest) (c : Char) (text : List Char) :
    lexer.scanWords c (text ++ rest) = (lexer.scanWords c text).followedBy rest := by
  have hkeyword : lexer.scanKeyword (c :: (text ++ rest)) =
      (lexer.scanKeyword (c :: text)).map (·.followedBy rest) := by
    refine scanWord_append_of_head (fun word hword => hrest.not_mem word ?_)
      (endsOnBoundary_append_break hrest.atBreak) (c :: text)
    exact List.mem_append_left _ (List.mem_append_right _ hword)
  have hsymbol : lexer.scanSymbol (c :: (text ++ rest)) =
      (lexer.scanSymbol (c :: text)).map (·.followedBy rest) := by
    refine scanWord_append_of_head (fun word hword => hrest.not_mem word ?_)
      (fun _ _ => rfl) (c :: text)
    exact List.mem_append_left _ (List.mem_append_left _ hword)
  have hidentifier := scanRun_append
    (hrest.atBreak.eq_false fun _ => isWord_eq_false_of_isLineBreak) .identifier c text
  unfold scanWords
  simp only [List.findSome?_cons, hkeyword, hsymbol, hidentifier]
  cases lexer.scanKeyword (c :: text) with
  | some found => rfl
  | none =>
      cases lexer.scanSymbol (c :: text) with
      | some found => rfl
      | none => cases scanRun .identifier isWord (c :: text) <;> rfl

theorem lexemes_lineEnd_append (lexer : Lexer) {text taken rest : List Char}
    (h : lineEnd? text = some (taken, rest)) :
    lexer.lexemes text = ⟨.line, taken, true⟩ :: lexer.lexemes rest := by
  cases text with
  | nil => cases h
  | cons c text =>
      have hscan : lexer.scan c text = ⟨[⟨.line, taken, true⟩], rest⟩ := by
        simp only [scan, rules, List.findSome?_cons, scanLineEnd, h, Option.map_some]
        rfl
      rw [lexemes_cons, hscan]
      rfl

theorem lexemes_lineFeed (lexer : Lexer) (rest : List Char) :
    lexer.lexemes ('\n' :: rest) = ⟨.line, ['\n'], true⟩ :: lexer.lexemes rest :=
  lexer.lexemes_lineEnd_append rfl

theorem lexemes_returnFeed (lexer : Lexer) (rest : List Char) :
    lexer.lexemes ('\r' :: '\n' :: rest) = ⟨.line, ['\r', '\n'], true⟩ :: lexer.lexemes rest :=
  lexer.lexemes_lineEnd_append rfl

theorem lexemes_continuation_append (lexer : Lexer) {text taken rest : List Char}
    (h : lineEnd? text = some (taken, rest)) :
    lexer.lexemes ('\\' :: text) = ⟨.space, '\\' :: taken, true⟩ :: lexer.lexemes rest := by
  have hline : scanLineEnd ('\\' :: text) = none := rfl
  have hscan : lexer.scan '\\' text = ⟨[⟨.space, '\\' :: taken, true⟩], rest⟩ := by
    simp only [scan, rules, List.findSome?_cons, hline, scanContinuation, h, Option.map_some]
    rfl
  rw [lexemes_cons, hscan]
  rfl

/-- Blanks that do not begin with a line end are one space. -/
theorem lexemes_blanks_append (lexer : Lexer) {run rest : List Char} (hne : run ≠ [])
    (hrun : ∀ c ∈ run, isBlank c = true) (hrest : ∀ c ∈ rest.head?, isBlank c = false)
    (hline : lineEnd? (run ++ rest) = none) :
    lexer.lexemes (run ++ rest) = ⟨.space, run, false⟩ :: lexer.lexemes rest := by
  have htake : (run ++ rest).takeWhile isBlank = run := by
    rw [takeWhile_append_of_head hrest, List.takeWhile_eq_self_iff.2 hrun]
  have hdrop : (run ++ rest).dropWhile isBlank = rest := by
    rw [dropWhile_append_of_head hrest, List.dropWhile_eq_nil_iff.2 hrun, List.nil_append]
  obtain ⟨c, run, rfl⟩ := List.exists_cons_of_ne_nil hne
  have hblank : isBlank c = true := hrun c List.mem_cons_self
  have hcontinued : scanContinuation (c :: (run ++ rest)) = none := by
    unfold scanContinuation
    split
    · next heq =>
      rw [(List.cons.inj heq).1] at hblank
      exact absurd hblank (by decide)
    · rfl
  have hspace : scanRun .space isBlank (c :: (run ++ rest)) =
      some (.single .space (c :: run) rest) := by
    rw [scanRun, if_pos hblank]
    exact congrArg some (congrArg₂ (Scan.single .space) htake hdrop)
  have hscan : lexer.scan c (run ++ rest) = .single .space (c :: run) rest := by
    rw [List.cons_append] at hline
    simp only [scan, rules, List.findSome?_cons, scanLineEnd, hline, Option.map_none, hcontinued,
      hspace]
    rfl
  rw [List.cons_append, lexemes_cons, hscan]
  rfl

/-- What is taken off a bare text does not depend on what stands behind a line break. -/
theorem scan_append_break (hrest : lexer.StopsAt rest) {c : Char} {text : List Char}
    (hbare : IsBare c (text ++ rest)) :
    lexer.scan c (text ++ rest) = (lexer.scan c text).followedBy rest := by
  rw [lexer.scan_of_isBare hbare, lexer.scan_of_isBare hbare.of_append,
    scanComment_append_break hrest, scanWords_append_break hrest]
  cases lexer.scanComment (c :: text) with
  | some found => rfl
  | none =>
      rw [Option.map_none, Option.getD_none, Option.getD_none]
      split
      · exact scanQuoted_append_break hbare.isLineBreak_eq hrest.atBreak text
      · rfl

theorem lexemes_bare_append (hrest : lexer.StopsAt rest) {c : Char} {text : List Char}
    (hbare : IsBare c (text ++ rest)) :
    lexer.lexemes (c :: (text ++ rest)) =
      (lexer.scan c text).lexemes ++ lexer.lexemes ((lexer.scan c text).rest ++ rest) := by
  rw [lexemes_cons, scan_append_break hrest hbare]
  rfl

end Lexer

end TokenGrammar
