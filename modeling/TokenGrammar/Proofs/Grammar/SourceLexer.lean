/-
  TokenGrammar.Proofs.Grammar.SourceLexer

  What the lexer of grammar sources finds at the beginning of a text that begins with a
  word, a sign, a quote, a blank or a line end; and what the words and comments that it
  finds in any text are made of.
-/

import TokenGrammar.Grammar.Basic
import TokenGrammar.Proofs.Grammar.Quoting
import TokenGrammar.Proofs.Lexer.Scanning

namespace TokenGrammar

/-- Whether some characters are a word. -/
def IsWordText (text : List Char) : Prop := text ≠ [] ∧ ∀ c ∈ text, isWord c = true

/-- The class of the token that a word is. -/
def wordClass (word : String) : TokenClass :=
  if (Category.ofTag? word).isSome then .keyword else .identifier

-- ============================================================================
-- Words
-- ============================================================================

/-- Of two words that some text begins with and ends as words, both are the same. -/
theorem eq_of_endsOnBoundary {word other rest behind : List Char} (hword : IsWordText word)
    (hother : IsWordText other) (hrest : ∀ c ∈ rest.head?, isWord c = false)
    (happend : other ++ behind = word ++ rest) (hends : endsOnBoundary other behind = true) :
    other = word ∧ behind = rest := by
  rcases List.append_eq_append_iff.1 happend with ⟨more, rfl, rfl⟩ | ⟨more, rfl, rfl⟩
  · -- The word goes on behind the other one, which is no end of a word then.
    cases more with
    | nil => simp
    | cons c more =>
        exfalso
        have hc : isWord c = true := hword.2 c (by simp)
        have hlast := List.getLast?_eq_some_getLast hother.1
        have hfinal := hother.2 _ (List.getLast_mem hother.1)
        rw [endsOnBoundary, hlast] at hends
        simp [hfinal, hc] at hends
  · cases more with
    | nil => simp
    | cons c more =>
        have hc : isWord c = true := hother.2 c (by simp)
        rw [hrest c rfl] at hc
        cases hc

namespace Grammar

theorem mem_keywords {word : String} :
    word ∈ sourceLexer.keywords ↔ (Category.ofTag? word).isSome = true := by
  have hkeywords : sourceLexer.keywords = sortLongestFirst (Category.all.map Category.tag) := rfl
  have hnonempty : ∀ category : Category, category.tag.isEmpty = false := by
    intro category
    cases category <;> decide
  rw [hkeywords, mem_sortLongestFirst, Category.ofTag?, List.find?_isSome]
  simp only [List.mem_map, beq_iff_eq]
  constructor
  · exact fun h => h.1
  · rintro ⟨category, hmem, rfl⟩
    exact ⟨⟨category, hmem, rfl⟩, hnonempty category⟩

theorem isWordText_of_mem_keywords {word : String} (h : word ∈ sourceLexer.keywords) :
    IsWordText word.toList := by
  have hall : ∀ word ∈ sourceLexer.keywords,
      word.toList ≠ [] ∧ word.toList.all isWord = true := by decide
  obtain ⟨hne, hword⟩ := hall word h
  exact ⟨hne, List.all_eq_true.1 hword⟩

/-- A keyword stands at the beginning of a text if the word there is a keyword. -/
theorem scanKeyword_append {word : String} {rest : List Char} (hword : IsWordText word.toList)
    (hrest : ∀ c ∈ rest.head?, isWord c = false) :
    sourceLexer.scanKeyword (word.toList ++ rest) =
      if word ∈ sourceLexer.keywords then some (.single .keyword word.toList rest) else none := by
  cases hscan : sourceLexer.scanKeyword (word.toList ++ rest) with
  | some scan =>
      obtain ⟨other, hmem, behind, happend, hends, rfl⟩ := of_scanWord_eq_some hscan
      obtain ⟨hsame, rfl⟩ :=
        eq_of_endsOnBoundary hword (isWordText_of_mem_keywords hmem) hrest happend hends
      rw [String.toList_inj] at hsame
      subst hsame
      rw [if_pos hmem]
  | none =>
      split
      · next hmem =>
        have hends : endsOnBoundary word.toList rest = true := by
          unfold endsOnBoundary
          split
          · next final next _ hnext => rw [hrest next hnext, Bool.and_false]; rfl
          · rfl
        have hsome : (sourceLexer.scanKeyword (word.toList ++ rest)).isSome = true :=
          isSome_scanWord hmem hword.1 hends
        rw [hscan] at hsome
        cases hsome
      · rfl

theorem scanSymbol_eq_none {c : Char} (h : isWord c = true) (text : List Char) :
    sourceLexer.scanSymbol (c :: text) = none := by
  cases hscan : sourceLexer.scanSymbol (c :: text) with
  | none => rfl
  | some scan =>
      obtain ⟨sign, hmem, rest, happend, -, -⟩ := of_scanWord_eq_some hscan
      have hsigns : sourceLexer.symbols.all (·.toList.head?.any (!isWord ·)) = true := by decide
      obtain ⟨first, hfirst, hnot⟩ :=
        (Option.any_eq_true _ _).1 (List.all_eq_true.1 hsigns sign hmem)
      have hhead := congrArg List.head? happend
      rw [List.head?_append, hfirst] at hhead
      rw [Option.some.inj hhead, h] at hnot
      cases hnot

/-- Where a word begins, a keyword or all of the word is taken. -/
theorem scan_of_isWord {c : Char} (h : isWord c = true) (text : List Char) :
    sourceLexer.scan c text = (sourceLexer.scanKeyword (c :: text)).getD
      (.single .identifier ((c :: text).takeWhile isWord) ((c :: text).dropWhile isWord)) := by
  have hcomment : sourceLexer.scanComment (c :: text) = none := by
    have hopening : "#".toList.isPrefixOf (c :: text) = false := by
      show ('#' == c && _) = false
      rw [beq_eq_false_iff_ne.2 (ne_of_isWord h (by decide)).symm]
      rfl
    show (if "#".toList.isPrefixOf (c :: text) then _ else none) = none
    rw [hopening]
    rfl
  have hquote : c ∉ sourceLexer.quotes := by
    have hquotes : sourceLexer.quotes.all (!isWord ·) = true := by decide
    intro hmem
    have hnot := List.all_eq_true.1 hquotes c hmem
    rw [h] at hnot
    cases hnot
  have hword : scanRun .identifier isWord (c :: text) = some (.single .identifier
      ((c :: text).takeWhile isWord) ((c :: text).dropWhile isWord)) := by
    rw [scanRun, if_pos h]
  rw [sourceLexer.scan_of_isBare (isBare_of_isWord h text), hcomment, Option.getD_none,
    if_neg hquote, Lexer.scanWords]
  simp only [List.findSome?_cons, scanSymbol_eq_none h, hword]
  cases sourceLexer.scanKeyword (c :: text) <;> rfl

/-- A word is taken whole. -/
theorem lexemes_word {word : String} {rest : List Char} (hword : IsWordText word.toList)
    (hrest : ∀ c ∈ rest.head?, isWord c = false) :
    sourceLexer.lexemes (word.toList ++ rest) =
      ⟨wordClass word, word.toList, false⟩ :: sourceLexer.lexemes rest := by
  obtain ⟨c, cs, hcs⟩ := List.exists_cons_of_ne_nil hword.1
  have htake : (word.toList ++ rest).takeWhile isWord = word.toList := by
    rw [List.takeWhile_append_of_pos hword.2]
    cases rest with
    | nil => simp
    | cons next rest => simp [hrest next rfl]
  have hdrop : (word.toList ++ rest).dropWhile isWord = rest := by
    rw [List.dropWhile_append_of_pos hword.2]
    cases rest with
    | nil => rfl
    | cons next rest => simp [hrest next rfl]
  have hscan : sourceLexer.scan c (cs ++ rest) = .single (wordClass word) word.toList rest := by
    rw [scan_of_isWord (hword.2 c (by simp [hcs])), ← List.cons_append, ← hcs, htake, hdrop,
      scanKeyword_append hword hrest, wordClass]
    simp only [mem_keywords]
    split
    · rfl
    · rfl
  rw [hcs, List.cons_append, Lexer.lexemes_cons, hscan, ← hcs]
  rfl

/-- A sign is taken by itself. -/
theorem lexemes_sign {sign : String} (h : sign ∈ signs) (rest : List Char) :
    sourceLexer.lexemes (sign.toList ++ rest) =
      ⟨.symbol, sign.toList, false⟩ :: sourceLexer.lexemes rest := by
  simp only [signs, List.mem_cons, List.not_mem_nil, or_false] at h
  rcases h with rfl | rfl | rfl | rfl | rfl | rfl | rfl | rfl | rfl
  · exact sourceLexer.lexemes_cons ':' ('=' :: rest)
  · exact sourceLexer.lexemes_cons '?' rest
  · exact sourceLexer.lexemes_cons '[' rest
  · exact sourceLexer.lexemes_cons ']' rest
  · exact sourceLexer.lexemes_cons '*' rest
  · exact sourceLexer.lexemes_cons '|' rest
  · exact sourceLexer.lexemes_cons '$' rest
  · exact sourceLexer.lexemes_cons '!' rest
  · exact sourceLexer.lexemes_cons '~' rest

theorem lexemes_lineEnd (rest : List Char) :
    sourceLexer.lexemes ('\n' :: rest) = ⟨.line, ['\n'], true⟩ :: sourceLexer.lexemes rest :=
  sourceLexer.lexemes_cons '\n' rest

theorem lexemes_blank {rest : List Char} (hrest : ∀ c ∈ rest.head?, isBlank c = false) :
    sourceLexer.lexemes (' ' :: rest) = ⟨.space, [' '], false⟩ :: sourceLexer.lexemes rest := by
  have htake : rest.takeWhile isBlank = [] := by
    cases rest with
    | nil => rfl
    | cons next rest => simp [hrest next rfl]
  have hdrop : rest.dropWhile isBlank = rest := by
    cases rest with
    | nil => rfl
    | cons next rest => simp [hrest next rfl]
  have hscan : sourceLexer.scan ' ' rest =
      .single .space (' ' :: rest.takeWhile isBlank) (rest.dropWhile isBlank) := rfl
  rw [Lexer.lexemes_cons, hscan, htake, hdrop]
  rfl

theorem lexemes_quoted {quote : Char} (h : quote ∈ literalQuotes) (text : List Char) :
    sourceLexer.lexemes (quote :: text) =
      (scanQuoted quote text).lexemes ++ sourceLexer.lexemes (scanQuoted quote text).rest := by
  rcases List.mem_cons.1 h with rfl | h
  · exact sourceLexer.lexemes_cons '"' text
  · rw [List.mem_singleton.1 h]
    exact sourceLexer.lexemes_cons '\'' text

/-- What stands at a line break is neither a sign nor a comment. -/
theorem lexemes_lineBreak {c : Char} (h : isLineBreak c = true) (text : List Char) :
    ∃ lexeme more, sourceLexer.lexemes (c :: text) = lexeme :: more ∧
      lexeme.cls ∈ [TokenClass.line, .space] := by
  rw [isLineBreak, Bool.or_eq_true, beq_iff_eq, beq_iff_eq] at h
  rcases h with rfl | rfl
  · exact ⟨_, _, lexemes_lineEnd text, by decide⟩
  · rw [Lexer.lexemes_cons]
    by_cases hfeed : text.head? = some '\n'
    · obtain ⟨rest, rfl⟩ := List.head?_eq_some_iff.1 hfeed
      exact ⟨_, _, rfl, List.mem_cons_self⟩
    · have hlineEnd : Lexer.scanLineEnd ('\r' :: text) = none := by
        rw [Lexer.scanLineEnd, lineEnd?]
        · rfl
        · rintro _ ⟨⟩
        · rintro rest ⟨⟩
          exact hfeed rfl
      have hscan : sourceLexer.scan '\r' text =
          .single .space ('\r' :: text.takeWhile isBlank) (text.dropWhile isBlank) := by
        rw [Lexer.scan, Lexer.rules, List.findSome?_cons, hlineEnd]
        rfl
      rw [hscan]
      exact ⟨_, _, rfl, List.mem_cons_of_mem _ List.mem_cons_self⟩

-- ============================================================================
-- Words and comments of a source
-- ============================================================================

end Grammar

/-- What is known about the lexemes of a source of a grammar: names are words that are no
    tags, and no comment runs over a line end. -/
structure Lexeme.OfSource (lexeme : Lexeme) : Prop where
  name : lexeme.cls = .identifier → IsWordText lexeme.text ∧
    Category.ofTag? (String.ofList lexeme.text) = none
  comment : lexeme.cls = .comment → ∀ c ∈ lexeme.text, isLineBreak c = false

theorem Lexeme.ofSource_of_cls {lexeme : Lexeme} (h : lexeme.cls ∉ [.identifier, .comment]) :
    lexeme.OfSource :=
  ⟨fun hname => absurd (by simp [hname]) h, fun hcomment => absurd (by simp [hcomment]) h⟩

/-- Lexemes of any other class are as they should be. -/
theorem Lexeme.ofSource_of_mem_singleton {lexeme only : Lexeme} (h : lexeme ∈ [only])
    (hcls : only.cls ∉ [.identifier, .comment]) : lexeme.OfSource := by
  rw [List.mem_singleton.1 h]
  exact ofSource_of_cls hcls

theorem ofSource_of_mem_scanQuoted {quote : Char} {text : List Char} {lexeme : Lexeme}
    (h : lexeme ∈ (scanQuoted quote text).lexemes) : lexeme.OfSource := by
  rcases mem_scanQuoted h with rfl | hheld
  · exact Lexeme.ofSource_of_cls (by simp)
  · unfold payloadLexemes at hheld
    split at hheld
    · cases hheld
    · rw [List.mem_singleton.1 hheld]
      exact ⟨nofun, fun _ c hc => isLineBreak_of_mem_payload hc⟩

namespace Grammar

theorem ofSource_of_mem_scan_word {c : Char} {text : List Char} {lexeme : Lexeme}
    (hword : isWord c = true) (h : lexeme ∈ (sourceLexer.scan c text).lexemes) :
    lexeme.OfSource := by
  rw [scan_of_isWord hword] at h
  cases hscan : sourceLexer.scanKeyword (c :: text) with
  | some scan =>
      obtain ⟨word, -, rest, -, -, rfl⟩ := of_scanWord_eq_some hscan
      rw [hscan] at h
      exact Lexeme.ofSource_of_mem_singleton h (by simp)
  | none =>
      rw [hscan] at h
      rw [List.mem_singleton.1 h]
      let word := String.ofList ((c :: text).takeWhile isWord)
      have htext : word.toList = (c :: text).takeWhile isWord := String.toList_ofList
      have hisWord : IsWordText word.toList := by
        rw [htext]
        refine ⟨by simp [hword], fun other hother => ?_⟩
        exact List.all_eq_true.1 List.all_takeWhile other hother
      have hrest : ∀ other ∈ ((c :: text).dropWhile isWord).head?, isWord other = false :=
        eq_false_of_mem_head?_dropWhile
      -- If the word were a tag, it would have been taken as a keyword.
      have hkeyword := scanKeyword_append hisWord hrest
      rw [htext, List.takeWhile_append_dropWhile, hscan] at hkeyword
      refine ⟨fun _ => ⟨htext ▸ hisWord, ?_⟩, nofun⟩
      apply Option.eq_none_iff_forall_ne_some.2
      intro category htag
      rw [if_pos (mem_keywords.2 (by rw [htag]; rfl))] at hkeyword
      cases hkeyword

/-- Lexemes of a grammar's source are as they should be. -/
theorem ofSource_of_mem_scan {c : Char} {text : List Char} {lexeme : Lexeme}
    (h : lexeme ∈ (sourceLexer.scan c text).lexemes) : lexeme.OfSource := by
  by_cases hword : isWord c = true
  · exact ofSource_of_mem_scan_word hword h
  unfold Lexer.scan at h
  cases hfound : sourceLexer.rules.findSome? (· (c :: text)) with
  | none =>
      rw [hfound] at h
      exact Lexeme.ofSource_of_mem_singleton h (by simp)
  | some found =>
      rw [hfound, Option.getD_some] at h
      obtain ⟨rule, hrule, hscan⟩ := List.exists_of_findSome?_eq_some hfound
      simp only [Lexer.rules, List.mem_cons, List.not_mem_nil, or_false] at hrule
      rcases hrule with rfl | rfl | rfl | rfl | rfl | rfl | rfl | rfl
      · obtain ⟨_, _, rfl⟩ := Option.map_eq_some_iff.1 hscan
        exact Lexeme.ofSource_of_mem_singleton h (by simp)
      · unfold Lexer.scanContinuation at hscan
        split at hscan
        · obtain ⟨_, _, rfl⟩ := Option.map_eq_some_iff.1 hscan
          exact Lexeme.ofSource_of_mem_singleton h (by simp)
        · cases hscan
      · obtain ⟨-, rfl⟩ := of_scanRun_eq_some hscan
        exact Lexeme.ofSource_of_mem_singleton h (by simp)
      · unfold Lexer.scanComment at hscan
        split at hscan
        · split at hscan
          · obtain ⟨-, rfl⟩ := of_scanRun_eq_some hscan
            rw [List.mem_singleton.1 h]
            refine ⟨by simp, fun _ other hother => ?_⟩
            have hnot := List.all_eq_true.1 List.all_takeWhile other hother
            rw [Bool.not_eq_true'] at hnot
            exact hnot
          · cases hscan
        · cases hscan
      · simp only [Lexer.scanString, Option.ite_none_right_eq_some, Option.some.injEq] at hscan
        rw [← hscan.2] at h
        exact ofSource_of_mem_scanQuoted h
      · obtain ⟨word, -, rest, -, -, rfl⟩ := of_scanWord_eq_some hscan
        exact Lexeme.ofSource_of_mem_singleton h (by simp)
      · obtain ⟨word, -, rest, -, -, rfl⟩ := of_scanWord_eq_some hscan
        exact Lexeme.ofSource_of_mem_singleton h (by simp)
      · exact absurd (of_scanRun_eq_some hscan).1 hword

theorem ofSource_of_mem_lexemes {text : List Char} {lexeme : Lexeme}
    (h : lexeme ∈ sourceLexer.lexemes text) : lexeme.OfSource := by
  fun_induction sourceLexer.lexemes text with
  | case1 => cases h
  | case2 c text found ih =>
      rcases List.mem_append.1 h with h | h
      · exact ofSource_of_mem_scan h
      · exact ih h

end Grammar

end TokenGrammar
