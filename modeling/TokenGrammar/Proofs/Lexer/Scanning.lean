/-
  TokenGrammar.Proofs.Lexer.Scanning

  What one pass of a lexer takes off a text.  Of the registered words that stand at the
  beginning it takes the longest (`longest_of_scanWord`).  But line ends, white space,
  comments and strings go before these words (`Lexer.scan_of_isBare`), so that a word that
  begins as one of them does is never taken whole (`Lexer.isShadowed_of_mem_lexemes`).
-/

import TokenGrammar.Proofs.Lexer.Slices

namespace TokenGrammar

-- ============================================================================
-- Runs and words
-- ============================================================================

/-- The longest run of characters with a property ends in front of one without it. -/
theorem eq_false_of_mem_head?_dropWhile {p : Char → Bool} {text : List Char} :
    ∀ c ∈ (text.dropWhile p).head?, p c = false := by
  intro c hc
  have hhead := List.head?_dropWhile_not p text
  rw [Option.mem_def.1 hc] at hhead
  simpa using hhead

theorem of_scanRun_eq_some {cls : TokenClass} {p : Char → Bool} {c : Char} {text : List Char}
    {scan : Scan} (h : scanRun cls p (c :: text) = some scan) :
    p c = true ∧ scan = .single cls ((c :: text).takeWhile p) ((c :: text).dropWhile p) := by
  simp only [scanRun, Option.ite_none_right_eq_some, Option.some.injEq] at h
  exact ⟨h.1, h.2.symm⟩

theorem afterWord?_append (word rest : List Char) : afterWord? word (word ++ rest) = some rest := by
  induction word with
  | nil => rfl
  | cons w word ih =>
      rw [List.cons_append, afterWord?, if_pos rfl]
      exact ih

section Words

theorem utf8ByteSize_le_of_longerFirst {word other : String} (h : longerFirst word other = true) :
    other.utf8ByteSize ≤ word.utf8ByteSize := by
  simp only [longerFirst, Bool.or_eq_true, decide_eq_true_eq, Bool.and_eq_true, beq_iff_eq] at h
  omega

variable {cls : TokenClass} {mayFollow : List Char → List Char → Bool} {words : List String}

theorem of_scanWord_eq_some {text : List Char} {scan : Scan}
    (h : scanWord cls mayFollow words text = some scan) :
    ∃ word ∈ words, ∃ rest, word.toList ++ rest = text ∧ mayFollow word.toList rest = true ∧
      scan = .single cls word.toList rest := by
  obtain ⟨word, hmem, hword⟩ := List.exists_of_findSome?_eq_some h
  split at hword
  · cases hword
  · cases hword
  · next c cs rest hcs hrest =>
    split at hword
    · next hfollow =>
      refine ⟨word, hmem, rest, append_of_afterWord? hrest, ?_, ?_⟩
      · rw [hcs]
        exact hfollow
      · rw [hcs]
        exact (Option.some.inj hword).symm
    · cases hword

theorem isSome_scanWord {word : String} {rest : List Char} (hmem : word ∈ words)
    (hne : word.toList ≠ []) (hfollow : mayFollow word.toList rest = true) :
    (scanWord cls mayFollow words (word.toList ++ rest)).isSome = true := by
  rw [scanWord, List.findSome?_isSome_iff]
  refine ⟨word, hmem, ?_⟩
  rw [afterWord?_append]
  obtain ⟨c, cs, hcs⟩ := List.exists_cons_of_ne_nil hne
  rw [hcs] at hfollow ⊢
  dsimp only
  rw [if_pos hfollow]
  rfl

theorem scanWord_cons (word : String) (words : List String) (text : List Char) :
    scanWord cls mayFollow (word :: words) text =
      (scanWord cls mayFollow [word] text).or (scanWord cls mayFollow words text) := by
  rw [← List.singleton_append]
  exact List.findSome?_append

/-- The word that is taken is the longest of those that stand there. -/
theorem longest_of_scanWord {text : List Char} {scan : Scan}
    (hsorted : words.Pairwise (longerFirst · · = true))
    (h : scanWord cls mayFollow words text = some scan) :
    ∃ word ∈ words, ∃ rest, word.toList ++ rest = text ∧ mayFollow word.toList rest = true ∧
      scan = .single cls word.toList rest ∧
      ∀ other ∈ words, ∀ behind, other.toList ≠ [] → other.toList ++ behind = text →
        mayFollow other.toList behind = true → other.utf8ByteSize ≤ word.utf8ByteSize := by
  induction words with
  | nil => cases h
  | cons first words ih =>
      obtain ⟨hfirst, hlater⟩ := List.pairwise_cons.1 hsorted
      rw [scanWord_cons] at h
      cases hscan : scanWord cls mayFollow [first] text with
      | some found =>
          rw [hscan, Option.some_or] at h
          obtain ⟨word, hword, rest, happend, hfollow, hfound⟩ := of_scanWord_eq_some hscan
          rw [List.mem_singleton.1 hword] at happend hfollow hfound
          refine ⟨first, List.mem_cons_self, rest, happend, hfollow,
            (Option.some.inj h).symm.trans hfound, fun other hother behind _ _ _ => ?_⟩
          rcases List.mem_cons.1 hother with rfl | hother
          · exact Nat.le_refl _
          · exact utf8ByteSize_le_of_longerFirst (hfirst other hother)
      | none =>
          rw [hscan, Option.none_or] at h
          obtain ⟨word, hword, rest, happend, hfollow, hfound, hlongest⟩ := ih hlater h
          refine ⟨word, List.mem_cons_of_mem first hword, rest, happend, hfollow, hfound,
            fun other hother behind hne hbehind hmay => ?_⟩
          rcases List.mem_cons.1 hother with rfl | hother
          · have hsome : (scanWord cls mayFollow [other] (other.toList ++ behind)).isSome = true :=
              isSome_scanWord List.mem_cons_self hne hmay
            rw [hbehind, hscan] at hsome
            cases hsome
          · exact hlongest other hother behind hne hbehind hmay

/-- A registered word is taken whole, if nothing follows it. -/
theorem scanWord_self {word : String} (hsorted : words.Pairwise (longerFirst · · = true))
    (hmem : word ∈ words) (hne : word.toList ≠ []) (hfollow : mayFollow word.toList [] = true) :
    scanWord cls mayFollow words word.toList = some (.single cls word.toList []) := by
  have hsome : (scanWord cls mayFollow words (word.toList ++ [])).isSome = true :=
    isSome_scanWord hmem hne hfollow
  rw [List.append_nil] at hsome
  obtain ⟨scan, hscan⟩ := Option.isSome_iff_exists.1 hsome
  obtain ⟨found, -, rest, happend, -, rfl, hlongest⟩ := longest_of_scanWord hsorted hscan
  -- The longest word there is no shorter than the whole text, so that nothing is left.
  have hle := hlongest word hmem [] hne (List.append_nil _) hfollow
  have hrest : rest = [] := by
    by_contra hne
    have hpos := byteLength_pos hne
    have hbytes := congrArg byteLength happend
    rw [byteLength_append, byteLength_toList, byteLength_toList] at hbytes
    omega
  rw [hrest, List.append_nil] at happend
  rw [hscan, happend, hrest]

end Words

-- ============================================================================
-- Bare texts
-- ============================================================================

/-- A text begins with neither white space nor a continued line. -/
structure IsBare (c : Char) (rest : List Char) : Prop where
  isWhiteSpace_eq : Unicode.isWhiteSpace c = false
  lineEnd?_eq : c = '\\' → lineEnd? rest = none

theorem lineEnd?_eq_none_of_append {text rest : List Char} (h : lineEnd? (text ++ rest) = none) :
    lineEnd? text = none := by
  cases hend : lineEnd? text with
  | none => rfl
  | some found =>
      unfold lineEnd? at hend
      split at hend
      · cases h
      · cases h
      · cases hend

namespace IsBare

variable {c : Char}

theorem of_append {text rest : List Char} (h : IsBare c (text ++ rest)) : IsBare c text :=
  ⟨h.isWhiteSpace_eq, fun hc => lineEnd?_eq_none_of_append (h.lineEnd?_eq hc)⟩

theorem ne_of_isWhiteSpace {text : List Char} (h : IsBare c text) (other : Char)
    (hother : Unicode.isWhiteSpace other = true) : c ≠ other := by
  rintro rfl
  rw [h.isWhiteSpace_eq] at hother
  cases hother

end IsBare

/-- What holds of all smaller codes holds of a character. -/
theorem of_toNat_lt {bound : Nat} (p : Char → Prop)
    (h : ∀ code, code < bound → p (Char.ofNat code)) {c : Char} (hc : c.toNat < bound) : p c := by
  have hcode := h c.toNat hc
  rw [Char.ofNat_toNat] at hcode
  exact hcode

/-- Words are ASCII only. -/
theorem toNat_lt_of_isWord {c : Char} (h : isWord c = true) : c.toNat < 128 := by
  rw [isWord, Bool.or_eq_true, beq_iff_eq] at h
  rcases h with h | rfl
  · have hranges : c.isAlphanum = ((decide (65 ≤ c.val ∧ c.val ≤ 90) ||
        decide (97 ≤ c.val) && decide (c.val ≤ 122)) ||
        decide (48 ≤ c.val) && decide (c.val ≤ 57)) := rfl
    simp only [hranges, Bool.or_eq_true, Bool.and_eq_true, decide_eq_true_eq,
      UInt32.le_iff_toNat_le] at h
    change ((65 ≤ c.toNat ∧ c.toNat ≤ 90) ∨ (97 ≤ c.toNat ∧ c.toNat ≤ 122)) ∨
      (48 ≤ c.toNat ∧ c.toNat ≤ 57) at h
    omega
  · decide

/-- No character of a word is a blank. -/
theorem isBlank_eq_false_of_isWord {c : Char} (h : isWord c = true) : isBlank c = false := by
  have hascii : ∀ code, code < 128 → isWord (Char.ofNat code) = true →
      isBlank (Char.ofNat code) = false := by decide
  exact of_toNat_lt (fun c => isWord c = true → isBlank c = false) hascii (toNat_lt_of_isWord h) h

theorem isWhiteSpace_eq_false_of_isBlank {c : Char} (h : isBlank c = false) (hfeed : c ≠ '\n') :
    Unicode.isWhiteSpace c = false := by
  rw [isBlank, Bool.or_eq_false_iff, bne_iff_ne.2 hfeed, Bool.true_and] at h
  exact h.2

theorem isBlank_eq_false_of_isWhiteSpace {c : Char} (h : Unicode.isWhiteSpace c = false) :
    isBlank c = false := by
  have hreturn : c ≠ '\r' := by
    rintro rfl
    exact absurd h (by decide)
  rw [isBlank, beq_eq_false_iff_ne.2 hreturn, h, Bool.and_false]
  rfl

theorem ne_of_isWord {c other : Char} (h : isWord c = true) (hother : isWord other = false) :
    c ≠ other := by
  rintro rfl
  rw [h] at hother
  cases hother

/-- Where a word begins, nothing goes before it. -/
theorem isBare_of_isWord {c : Char} (h : isWord c = true) (text : List Char) : IsBare c text := by
  have hspace : Unicode.isWhiteSpace c = false :=
    isWhiteSpace_eq_false_of_isBlank (isBlank_eq_false_of_isWord h) (ne_of_isWord h (by decide))
  exact ⟨hspace, fun hc => absurd hc (ne_of_isWord h (by decide))⟩

-- ============================================================================
-- Passes
-- ============================================================================

/-- A single lexeme begins as the text that it is taken off does. -/
theorem Scan.Takes.exists_more {cls : TokenClass} {taken rest : List Char} {c : Char}
    {text : List Char} (h : (Scan.single cls taken rest).Takes (c :: text)) :
    ∃ more, taken = c :: more ∧ more ++ rest = text := by
  have hwhole : taken ++ rest = c :: text := by
    have hlexemes := h.whole
    rw [single, List.flatMap_singleton] at hlexemes
    exact hlexemes
  cases taken with
  | nil => exact absurd rfl (h.ne_nil _ List.mem_cons_self)
  | cons first more =>
      obtain ⟨rfl, hrest⟩ := List.cons.inj hwhole
      exact ⟨more, rfl, hrest⟩

namespace Lexer

/-- Neither a line end nor space is taken off a bare text. -/
theorem scans_of_isBare {c : Char} {text : List Char} (h : IsBare c text) :
    scanLineEnd (c :: text) = none ∧ scanContinuation (c :: text) = none ∧
      scanRun .space isBlank (c :: text) = none := by
  have hfeed := h.ne_of_isWhiteSpace '\n' (by decide)
  have hreturn := h.ne_of_isWhiteSpace '\r' (by decide)
  refine ⟨?_, ?_, ?_⟩
  · rw [scanLineEnd, lineEnd?]
    · rfl
    · rintro _ ⟨⟩
      exact hfeed rfl
    · rintro _ ⟨⟩
      exact hreturn rfl
  · unfold scanContinuation
    split
    · next rest heq =>
      obtain ⟨rfl, rfl⟩ := List.cons.inj heq
      rw [h.lineEnd?_eq rfl]
      rfl
    · rfl
  · rw [scanRun, isBlank_eq_false_of_isWhiteSpace h.isWhiteSpace_eq]
    rfl

/-- A text is bare if neither a line end nor space is taken off it. -/
theorem isBare_of_scans {c : Char} {text : List Char} (hline : scanLineEnd (c :: text) = none)
    (hcontinued : scanContinuation (c :: text) = none)
    (hspace : scanRun .space isBlank (c :: text) = none) : IsBare c text := by
  constructor
  · have hblank : isBlank c = false := by
      cases hc : isBlank c with
      | false => rfl
      | true =>
          rw [scanRun, if_pos hc] at hspace
          cases hspace
    have hfeed : c ≠ '\n' := by
      rintro rfl
      cases hline
    exact isWhiteSpace_eq_false_of_isBlank hblank hfeed
  · rintro rfl
    exact Option.map_eq_none_iff.1 hcontinued

/-- A registered word, or else a word of other characters, or else a character. -/
def scanWords (lexer : Lexer) (c : Char) (text : List Char) : Scan :=
  ([lexer.scanKeyword, lexer.scanSymbol, scanRun .identifier isWord].findSome?
    (· (c :: text))).getD (.single .symbol [c] text)

/-- Off a bare text a comment is taken, or else a string, or else a word. -/
theorem scan_of_isBare (lexer : Lexer) {c : Char} {text : List Char} (h : IsBare c text) :
    lexer.scan c text = (lexer.scanComment (c :: text)).getD
      (if c ∈ lexer.quotes then scanQuoted c text else lexer.scanWords c text) := by
  obtain ⟨hline, hcontinued, hspace⟩ := scans_of_isBare h
  have hstring : lexer.scanString (c :: text) =
      if c ∈ lexer.quotes then some (scanQuoted c text) else none := by
    simp only [scanString, List.contains_iff_mem]
  simp only [scan, rules, List.findSome?_cons, hline, hcontinued, hspace, hstring]
  cases lexer.scanComment (c :: text) with
  | some found => rfl
  | none =>
      by_cases hquote : c ∈ lexer.quotes
      · simp only [if_pos hquote, Option.getD_none, Option.getD_some]
      · simp only [if_neg hquote, Option.getD_none]
        rfl

/-- Off any other text a line end or space is taken. -/
theorem scan_of_not_isBare (lexer : Lexer) {c : Char} {text : List Char} (h : ¬ IsBare c text) :
    ∃ lexeme rest, lexer.scan c text = ⟨[lexeme], rest⟩ ∧
      lexeme.cls ∈ [TokenClass.line, .space] := by
  unfold scan rules
  rw [List.findSome?_cons]
  cases hline : scanLineEnd (c :: text) with
  | some found =>
      obtain ⟨_, _, rfl⟩ := Option.map_eq_some_iff.1 hline
      exact ⟨_, _, rfl, List.mem_cons_self⟩
  | none =>
      rw [List.findSome?_cons]
      cases hcontinued : scanContinuation (c :: text) with
      | some found =>
          unfold scanContinuation at hcontinued
          split at hcontinued
          · obtain ⟨_, _, rfl⟩ := Option.map_eq_some_iff.1 hcontinued
            exact ⟨_, _, rfl, List.mem_cons_of_mem _ List.mem_cons_self⟩
          · cases hcontinued
      | none =>
          rw [List.findSome?_cons]
          cases hspace : scanRun .space isBlank (c :: text) with
          | some found =>
              obtain ⟨-, rfl⟩ := of_scanRun_eq_some hspace
              exact ⟨_, _, rfl, List.mem_cons_of_mem _ List.mem_cons_self⟩
          | none => exact absurd (isBare_of_scans hline hcontinued hspace) h

theorem of_scanComment_eq_some {lexer : Lexer} {text : List Char} {scan : Scan}
    (h : lexer.scanComment text = some scan) :
    ∃ taken rest, scan = .single .comment taken rest := by
  unfold scanComment at h
  split at h
  · split at h
    · cases text with
      | nil => cases h
      | cons c text => exact ⟨_, _, (of_scanRun_eq_some h).2⟩
    · cases h
  · cases h

/-- A word begins where the text does. -/
theorem exists_of_scanWords (lexer : Lexer) (c : Char) (text : List Char) :
    ∃ cls more rest, lexer.scanWords c text = .single cls (c :: more) rest ∧
      more ++ rest = text := by
  unfold scanWords
  cases hfound : [lexer.scanKeyword, lexer.scanSymbol, scanRun .identifier isWord].findSome?
      (· (c :: text)) with
  | none => exact ⟨.symbol, [], text, rfl, rfl⟩
  | some found =>
      obtain ⟨rule, hrule, h⟩ := List.exists_of_findSome?_eq_some hfound
      simp only [List.mem_cons, List.not_mem_nil, or_false] at hrule
      rw [Option.getD_some]
      obtain ⟨cls, taken, rest, rfl, htakes⟩ : ∃ cls taken rest,
          found = .single cls taken rest ∧ found.Takes (c :: text) := by
        rcases hrule with rfl | rfl | rfl
        · obtain ⟨word, -, rest, -, -, hsingle⟩ := of_scanWord_eq_some h
          exact ⟨.keyword, word.toList, rest, hsingle, takes_of_scanWord h⟩
        · obtain ⟨word, -, rest, -, -, hsingle⟩ := of_scanWord_eq_some h
          exact ⟨.symbol, word.toList, rest, hsingle, takes_of_scanWord h⟩
        · exact ⟨.identifier, _, _, (of_scanRun_eq_some h).2, takes_of_scanRun h⟩
      obtain ⟨more, rfl, hwhole⟩ := htakes.exists_more
      exact ⟨cls, more, rest, rfl, hwhole⟩

end Lexer

-- ============================================================================
-- Words behind other rules
-- ============================================================================

/-- The classes of the tokens that a literal may be. -/
def TokenClass.wordlike : List TokenClass := [.symbol, .keyword, .identifier]

/-- Whether something else than the whole text is taken off a text before registered
    words are looked for: white space, a continued line, or a quote that something
    follows. -/
def isShadowed : List Char → Bool
  | [] => false
  | c :: rest =>
    Unicode.isWhiteSpace c || (c == '\\' && (lineEnd? rest).isSome) ||
      (defaultQuotes.contains c && !rest.isEmpty)

theorem isShadowed_eq_false_iff {c : Char} {rest : List Char} :
    isShadowed (c :: rest) = false ↔ IsBare c rest ∧ (c ∈ defaultQuotes → rest = []) := by
  simp only [isShadowed, Bool.or_eq_false_iff, Bool.and_eq_false_imp, beq_iff_eq,
    Option.isSome_eq_false_iff, Option.isNone_iff_eq_none, List.contains_iff_mem,
    Bool.not_eq_false', List.isEmpty_iff]
  constructor
  · rintro ⟨⟨hspace, hcontinued⟩, hquote⟩
    exact ⟨⟨hspace, hcontinued⟩, hquote⟩
  · rintro ⟨⟨hspace, hcontinued⟩, hquote⟩
    exact ⟨⟨hspace, hcontinued⟩, hquote⟩

namespace Lexer

variable {lexer : Lexer}

/-- What is taken where words are looked for is a symbol, a keyword or an identifier. -/
theorem cls_of_scanWords_eq {c : Char} {text taken rest : List Char} {cls : TokenClass}
    (h : lexer.scanWords c text = .single cls taken rest) : cls ∈ TokenClass.wordlike := by
  have hfirst : ∀ {cls' : TokenClass} {taken' rest' : List Char},
      Scan.single cls' taken' rest' = .single cls taken rest → cls' = cls := by
    intro cls' taken' rest' heq
    have hlexemes := congrArg (fun scan => scan.lexemes.map Lexeme.cls) heq
    exact (List.cons.inj hlexemes).1
  unfold scanWords at h
  cases hfound : [lexer.scanKeyword, lexer.scanSymbol, scanRun .identifier isWord].findSome?
      (· (c :: text)) with
  | none =>
      rw [hfound, Option.getD_none] at h
      rw [← hfirst h]
      decide
  | some found =>
      rw [hfound, Option.getD_some] at h
      obtain ⟨rule, hrule, happlies⟩ := List.exists_of_findSome?_eq_some hfound
      simp only [List.mem_cons, List.not_mem_nil, or_false] at hrule
      rcases hrule with rfl | rfl | rfl
      · obtain ⟨word, -, behind, -, -, rfl⟩ := of_scanWord_eq_some happlies
        rw [← hfirst h]
        decide
      · obtain ⟨word, -, behind, -, -, rfl⟩ := of_scanWord_eq_some happlies
        rw [← hfirst h]
        decide
      · obtain ⟨-, rfl⟩ := of_scanRun_eq_some happlies
        rw [← hfirst h]
        decide

/-- A symbol, a keyword or an identifier is taken off a bare text.  It is a quote, or words
    were looked for. -/
theorem word_of_mem_scan {c : Char} {text : List Char} {lexeme : Lexeme}
    (h : lexeme ∈ (lexer.scan c text).lexemes) (hcls : lexeme.cls ∈ TokenClass.wordlike) :
    IsBare c text ∧ ((c ∈ lexer.quotes ∧ lexeme.text = [c]) ∨
      (c ∉ lexer.quotes ∧ lexer.scan c text = lexer.scanWords c text)) := by
  by_cases hbare : IsBare c text
  · refine ⟨hbare, ?_⟩
    rw [lexer.scan_of_isBare hbare] at h ⊢
    cases hcomment : lexer.scanComment (c :: text) with
    | some found =>
        obtain ⟨taken, rest, rfl⟩ := of_scanComment_eq_some hcomment
        rw [hcomment] at h
        rw [List.mem_singleton.1 h] at hcls
        have hword : TokenClass.comment ∈ TokenClass.wordlike := hcls
        exact absurd hword (by decide)
    | none =>
        rw [hcomment, Option.getD_none] at h
        rw [Option.getD_none]
        split at h
        · next hquote =>
          rcases mem_scanQuoted h with rfl | hheld
          · exact .inl ⟨hquote, rfl⟩
          · rw [cls_of_mem_payloadLexemes hheld] at hcls
            exact absurd hcls (by decide)
        · next hquote => exact .inr ⟨hquote, if_neg hquote⟩
  · obtain ⟨only, rest, hscan, honly⟩ := lexer.scan_of_not_isBare hbare
    rw [hscan] at h
    rw [List.mem_singleton.1 h] at hcls
    simp only [List.mem_cons, List.not_mem_nil, or_false] at honly
    rcases honly with honly | honly <;> rw [honly] at hcls <;> exact absurd hcls (by decide)

theorem isShadowed_of_mem_scan (hquotes : lexer.quotes = defaultQuotes) {c : Char}
    {text : List Char} {lexeme : Lexeme} (h : lexeme ∈ (lexer.scan c text).lexemes)
    (hcls : lexeme.cls ∈ TokenClass.wordlike) : isShadowed lexeme.text = false := by
  obtain ⟨hbare, ⟨-, htext⟩ | ⟨hquote, hwords⟩⟩ := word_of_mem_scan h hcls
  · rw [htext]
    exact isShadowed_eq_false_iff.2 ⟨⟨hbare.isWhiteSpace_eq, fun _ => rfl⟩, fun _ => rfl⟩
  · obtain ⟨cls, more, rest, hscan, rfl⟩ := lexer.exists_of_scanWords c text
    rw [hwords, hscan] at h
    rw [List.mem_singleton.1 h]
    rw [hquotes] at hquote
    exact isShadowed_eq_false_iff.2 ⟨hbare.of_append, fun hmem => absurd hmem hquote⟩

/-- No token that a literal may be has a text that is shadowed. -/
theorem isShadowed_of_mem_lexemes (hquotes : lexer.quotes = defaultQuotes) {text : List Char}
    {lexeme : Lexeme} (h : lexeme ∈ lexer.lexemes text)
    (hcls : lexeme.cls ∈ TokenClass.wordlike) : isShadowed lexeme.text = false := by
  fun_induction lexer.lexemes text with
  | case1 => cases h
  | case2 c text found ih =>
      rcases List.mem_append.1 h with h | h
      · exact isShadowed_of_mem_scan hquotes h hcls
      · exact ih h

end Lexer

end TokenGrammar
