/-
  TokenGrammar.Proofs.Grammar.Respacing

  Texts whose words are spaced anew.  A word of a text, be it a literal, a run of word
  characters or a single character, is taken whole if a space or nothing follows it
  (`Grammar.scanWords_atSpace`): no literal that holds no white space gets over the space,
  and one that stops before it stood there already.  So the words of a text, with a space
  between each two of them, are the words of what they make up (`Lexer.words_intercalate`).

  Main statement: `Grammar.respacing_is_harmless`.
-/

import Mathlib.Data.List.TakeWhile
import TokenGrammar.Proofs.Grammar.LongestWords

namespace TokenGrammar

-- ============================================================================
-- Spaces
-- ============================================================================

/-- Whether a text is at its end or at a space. -/
def AtSpace (text : List Char) : Prop := ∀ c ∈ text.head?, c = ' '

/-- Whether a text holds no white space. -/
def IsSolid (text : List Char) : Prop := ∀ c ∈ text, Unicode.isWhiteSpace c = false

theorem AtSpace.nil : AtSpace [] := fun _ h => nomatch h

theorem AtSpace.cons (text : List Char) : AtSpace (' ' :: text) := by
  rintro _ ⟨⟩
  rfl

theorem AtSpace.isWord_eq {text : List Char} (h : AtSpace text) :
    ∀ c ∈ text.head?, isWord c = false := by
  intro c hc
  rw [h c hc]
  decide

/-- No solid word gets over a space. -/
theorem exists_tail_of_isSolid {word left taken behind : List Char} (hword : IsSolid word)
    (hbehind : AtSpace behind) (h : word ++ left = taken ++ behind) :
    ∃ tail, taken = word ++ tail ∧ left = tail ++ behind := by
  rcases List.append_eq_append_iff.1 h with ⟨tail, htaken, hleft⟩ | ⟨cut, rfl, hcut⟩
  · exact ⟨tail, htaken, hleft⟩
  · rcases cut with _ | ⟨c, cut⟩
    · exact ⟨[], by simp, by simp [hcut]⟩
    · have hspace : c = ' ' := hbehind c (by rw [hcut]; rfl)
      have hsolid := hword c (by simp)
      rw [hspace] at hsolid
      exact absurd hsolid (by decide)

theorem isSolid_of_isWord {run : List Char} (h : ∀ c ∈ run, isWord c = true) : IsSolid run :=
  fun c hc => (isBare_of_isWord (h c hc) []).isWhiteSpace_eq

/-- In front of a space a solid text is bare. -/
theorem isBare_atSpace {c : Char} {more behind : List Char} (hsolid : IsSolid (c :: more))
    (hbehind : AtSpace behind) : IsBare c (more ++ behind) := by
  obtain ⟨hc, hmore⟩ := List.forall_mem_cons.1 hsolid
  refine ⟨hc, fun _ => ?_⟩
  rcases more with _ | ⟨next, more⟩
  · rcases behind with _ | ⟨next, behind⟩
    · rfl
    · obtain rfl : next = ' ' := hbehind next rfl
      exact lineEnd?_eq_none_of_ne (by decide) (by decide) _
  · have hnext := hmore next List.mem_cons_self
    refine lineEnd?_eq_none_of_ne ?_ ?_ _
    · rintro rfl
      exact absurd hnext (by decide)
    · rintro rfl
      exact absurd hnext (by decide)

-- ============================================================================
-- Words in front of a space
-- ============================================================================

/-- A solid word that stands at a word in front of a space stands there in front of any
    other text that the word does not run on into. -/
theorem Stands.of_atSpace {word : String} {taken behind rest : List Char}
    (h : Stands word (taken ++ behind)) (hword : IsSolid word.toList) (hbehind : AtSpace behind)
    (hends : TokenGrammar.endsOnBoundary taken rest = true) : Stands word (taken ++ rest) := by
  obtain ⟨left, happend, hleft⟩ := h
  obtain ⟨tail, rfl, rfl⟩ := exists_tail_of_isSolid hword hbehind happend
  refine ⟨tail ++ rest, by rw [List.append_assoc], ?_⟩
  by_cases hne : tail = []
  · subst hne
    rw [List.append_nil] at hends
    exact hends
  · rw [endsOnBoundary_append_right hne] at hleft ⊢
    exact hleft

namespace Grammar

variable {rules : RuleTable} (hsolid : ∀ word ∈ rules.literals, IsSolid word.toList)
include hsolid

theorem isSolid_of_isLongest {text taken : List Char}
    (h : IsLongest rules.literals text (String.ofList taken)) : IsSolid taken := by
  have hliteral := hsolid _ h.mem
  rw [String.toList_ofList] at hliteral
  exact hliteral

/-- Where no literal stands, what is taken in front of other text is taken in front of a
    space. -/
theorem scanWords_other_atSpace {c : Char} {more rest behind : List Char} {cls : TokenClass}
    (hnone : ∀ word ∈ rules.literals, ¬ Stands word (c :: (more ++ rest)))
    (hscan : (ofRules rules).lexer.scanWords c (more ++ rest) = .single cls (c :: more) rest)
    (hends : endsOnBoundary (c :: more) rest = true) (hbehind : AtSpace behind) :
    (ofRules rules).lexer.scanWords c (more ++ behind) = .single cls (c :: more) behind := by
  have hnone' : ∀ word ∈ rules.literals, ¬ Stands word (c :: (more ++ behind)) := by
    intro word hmem hstands
    have hspaced : Stands word ((c :: more) ++ behind) := hstands
    exact hnone word hmem (hspaced.of_atSpace (hsolid word hmem) hbehind hends)
  have hbegins : endsOnBoundary [] (c :: more) = true := rfl
  rw [scanWords_of_not_stands hnone']
  obtain ⟨rfl, hrun⟩ | ⟨rfl, hsingle, hword⟩ := run_or_character hnone hscan hbegins
  · have hall : (c :: more).takeWhile isWord = c :: more :=
      List.takeWhile_eq_self_iff.2 hrun.isWord
    have hnothing : (c :: more).dropWhile isWord = [] := List.dropWhile_eq_nil_iff.2 hrun.isWord
    rw [scanRun_append hbehind.isWord_eq, scanRun, if_pos (hrun.isWord c List.mem_cons_self), hall,
      hnothing]
    rfl
  · obtain rfl : more = [] := (List.cons.inj hsingle).2
    rw [scanRun, if_neg (by rw [hword]; decide)]
    rfl

variable (hne : ∀ word ∈ rules.literals, word.toList ≠ [])
include hne

/-- In front of a space a literal is the longest one that stands there. -/
theorem scanWords_literal_atSpace {c : Char} {more behind : List Char} {word : String}
    (hmem : word ∈ rules.literals) (htext : word.toList = c :: more) (hbehind : AtSpace behind) :
    (ofRules rules).lexer.scanWords c (more ++ behind) =
      .single (literalClass word) (c :: more) behind := by
  have hstands : Stands word (c :: (more ++ behind)) := by
    refine ⟨behind, congrArg (· ++ behind) htext, ?_⟩
    exact endsOnBoundary_of_head? hbehind.isWord_eq _
  obtain ⟨cls, found, left, hscan, hwhole⟩ :=
    (ofRules rules).lexer.exists_of_scanWords c (more ++ behind)
  obtain ⟨hlongest, rfl⟩ := isLongest_of_stands hne ⟨word, hmem, hstands⟩ hscan
  have hsplit : (c :: found) ++ left = (c :: more) ++ behind := congrArg (c :: ·) hwhole
  obtain ⟨tail, htail, rfl⟩ :=
    exists_tail_of_isSolid (isSolid_of_isLongest hsolid hlongest) hbehind hsplit
  -- No literal that stands there is longer than the word, and this one is no shorter.
  have hle := hlongest.longest word hmem hstands
  rw [← byteLength_eq, ← byteLength_toList, htext, htail, byteLength_append] at hle
  have hnil : tail = [] := by
    by_contra htailNe
    have hpos := byteLength_pos htailNe
    omega
  subst hnil
  rw [List.append_nil] at htail
  rw [hscan, ← htail, ← htext, String.ofList_toList, List.nil_append]

/-- A word that is taken in front of any text is solid, and is taken in front of a space. -/
theorem scanWords_atSpace {c : Char} {more rest : List Char} {cls : TokenClass}
    (hbare : IsBare c (more ++ rest))
    (hscan : (ofRules rules).lexer.scanWords c (more ++ rest) = .single cls (c :: more) rest)
    (hends : endsOnBoundary (c :: more) rest = true) :
    IsSolid (c :: more) ∧ ∀ behind, AtSpace behind →
      (ofRules rules).lexer.scanWords c (more ++ behind) = .single cls (c :: more) behind := by
  by_cases hstands : ∃ word ∈ rules.literals, Stands word (c :: (more ++ rest))
  · obtain ⟨hlongest, rfl⟩ := isLongest_of_stands hne hstands hscan
    exact ⟨isSolid_of_isLongest hsolid hlongest, fun behind =>
      scanWords_literal_atSpace hsolid hne hlongest.mem String.toList_ofList⟩
  · have hnone : ∀ word ∈ rules.literals, ¬ Stands word (c :: (more ++ rest)) :=
      fun word hmem h => hstands ⟨word, hmem, h⟩
    have hbegins : endsOnBoundary [] (c :: more) = true := rfl
    refine ⟨?_, fun behind => scanWords_other_atSpace hsolid hnone hscan hends⟩
    obtain ⟨-, hrun⟩ | ⟨-, hsingle, -⟩ := run_or_character hnone hscan hbegins
    · exact isSolid_of_isWord hrun.isWord
    · rw [hsingle]
      exact List.forall_mem_singleton.2 hbare.isWhiteSpace_eq

end Grammar

-- ============================================================================
-- The words of a text
-- ============================================================================

theorem intercalate_cons {α : Type} (between first : List α) (later : List (List α)) :
    between.intercalate (first :: later) = first ++ later.flatMap (between ++ ·) := by
  induction later generalizing first with
  | nil => rw [List.intercalate_singleton, List.flatMap_nil, List.append_nil]
  | cons next later ih =>
      rw [List.intercalate_cons_cons, ih, List.flatMap_cons, List.append_assoc, List.append_assoc]

/-- A word that stands alone is taken whole if a space or nothing follows it. -/
structure Lexer.StandsAlone (lexer : Lexer) (word : Lexeme) : Prop where
  wordlike : word.cls ∈ TokenClass.wordlike
  ne_nil : word.text ≠ []
  isSolid : IsSolid word.text
  lexemes_append : ∀ behind, AtSpace behind →
    lexer.lexemes (word.text ++ behind) = word :: lexer.lexemes behind

namespace Lexer

/-- The symbols, keywords and identifiers of a text. -/
def words (lexer : Lexer) (text : List Char) : List Lexeme :=
  (lexer.lexemes text).filter (decide <| ·.cls ∈ TokenClass.wordlike)

variable {lexer : Lexer}

theorem words_word_append {word : Lexeme} (h : lexer.StandsAlone word) {behind : List Char}
    (hbehind : AtSpace behind) :
    lexer.words (word.text ++ behind) = word :: lexer.words behind := by
  unfold words
  rw [h.lexemes_append behind hbehind]
  exact List.filter_cons_of_pos (decide_eq_true h.wordlike)

/-- A space in front of a solid text is no word. -/
theorem words_space_append {word : Lexeme} (h : lexer.StandsAlone word) (rest : List Char) :
    lexer.words (' ' :: (word.text ++ rest)) = lexer.words (word.text ++ rest) := by
  have hhead : ∀ c ∈ (word.text ++ rest).head?, isBlank c = false := by
    intro c hc
    rw [List.head?_append_of_ne_nil _ h.ne_nil] at hc
    exact isBlank_eq_false_of_isWhiteSpace (h.isSolid c (List.mem_of_head? hc))
  have hline : lineEnd? ([' '] ++ (word.text ++ rest)) = none :=
    lineEnd?_eq_none_of_ne (by decide) (by decide) _
  unfold words
  rw [← List.singleton_append, lexer.lexemes_blanks_append (List.cons_ne_nil _ _)
    (List.forall_mem_singleton.2 rfl) hhead hline]
  exact List.filter_cons_of_neg (by decide)

/-- What has a space in front of each of its words is at a space. -/
theorem atSpace_flatMap (found : List Lexeme) :
    AtSpace (found.flatMap fun word => [' '] ++ word.text) := by
  rcases found with _ | ⟨word, later⟩
  · exact .nil
  · exact .cons _

theorem words_flatMap {found : List Lexeme} (h : ∀ word ∈ found, lexer.StandsAlone word) :
    lexer.words (found.flatMap fun word => [' '] ++ word.text) = found := by
  induction found with
  | nil =>
      unfold words
      rw [List.flatMap_nil, lexemes_nil]
      rfl
  | cons word later ih =>
      obtain ⟨hword, hlater⟩ := List.forall_mem_cons.1 h
      rw [List.flatMap_cons, List.append_assoc, List.singleton_append, words_space_append hword,
        words_word_append hword (atSpace_flatMap later), ih hlater]

/-- Words that stand alone are the words of what they make up with spaces between them. -/
theorem words_intercalate {found : List Lexeme} (h : ∀ word ∈ found, lexer.StandsAlone word) :
    lexer.words ([' '].intercalate (found.map Lexeme.text)) = found := by
  rcases found with _ | ⟨word, later⟩
  · exact words_flatMap h
  · obtain ⟨hword, hlater⟩ := List.forall_mem_cons.1 h
    rw [List.map_cons, intercalate_cons, List.flatMap_map]
    exact (words_word_append hword (atSpace_flatMap later)).trans
      (congrArg (word :: ·) (words_flatMap hlater))

end Lexer

namespace Grammar

variable {rules : RuleTable} (hsolid : ∀ word ∈ rules.literals, IsSolid word.toList)
  (hne : ∀ word ∈ rules.literals, word.toList ≠ [])
include hsolid hne

/-- A word that one pass takes stands alone, if it is no quote. -/
theorem standsAlone_of_mem_scan {c : Char} {text : List Char}
    (hquote : c ∉ (ofRules rules).lexer.quotes) {word : Lexeme}
    (h : word ∈ ((ofRules rules).lexer.scan c text).lexemes)
    (hcls : word.cls ∈ TokenClass.wordlike) : (ofRules rules).lexer.StandsAlone word := by
  obtain ⟨hbare, ⟨hmark, -⟩ | ⟨-, hwords⟩⟩ := Lexer.word_of_mem_scan h hcls
  · exact absurd hmark hquote
  obtain ⟨cls, more, rest, hscan, rfl⟩ := (ofRules rules).lexer.exists_of_scanWords c text
  have hends : ((ofRules rules).lexer.scan c (more ++ rest)).EndsWords :=
    Lexer.endsWords_scan (keepsWords_lexer rules "") c _
  rw [hwords, hscan] at h hends
  rw [Scan.EndsWords, Scan.single, List.flatMap_singleton] at hends
  obtain ⟨htext, hspaced⟩ := scanWords_atSpace hsolid hne hbare hscan hends
  obtain rfl := List.mem_singleton.1 h
  refine ⟨hcls, List.cons_ne_nil _ _, htext, fun behind hbehind => ?_⟩
  have hnone : (ofRules rules).lexer.scanComment (c :: (more ++ behind)) = none := rfl
  rw [List.cons_append, Lexer.lexemes_cons, Lexer.scan_of_isBare _ (isBare_atSpace htext hbehind),
    hnone, Option.getD_none, if_neg hquote, hspaced behind hbehind]
  rfl

/-- The words of a text without quotes stand alone. -/
theorem standsAlone_of_mem_lexemes {text : List Char}
    (hquotes : ∀ quote ∈ defaultQuotes, quote ∉ text) {word : Lexeme}
    (h : word ∈ (ofRules rules).lexer.lexemes text) (hcls : word.cls ∈ TokenClass.wordlike) :
    (ofRules rules).lexer.StandsAlone word := by
  fun_induction (ofRules rules).lexer.lexemes text with
  | case1 => cases h
  | case2 c text found ih =>
      rcases List.mem_append.1 h with h | h
      · have hquote : c ∉ (ofRules rules).lexer.quotes :=
          fun hmark => hquotes c hmark List.mem_cons_self
        exact standsAlone_of_mem_scan hsolid hne hquote h hcls
      · refine ih (fun quote hquote hmem => hquotes quote hquote ?_) h
        have hwhole := ((ofRules rules).lexer.takes_scan c text).whole
        rw [← hwhole]
        exact List.mem_append_right _ hmem

end Grammar

-- ============================================================================
-- Significant tokens
-- ============================================================================

/-- The significant tokens are the symbols, keywords and identifiers. -/
theorem isSignificant_eq {token : Token} (h : token.cls ∈ TokenClass.ofText) :
    (!token.isSkippable true && token.cls != .ending) =
      decide (token.cls ∈ TokenClass.wordlike) := by
  obtain ⟨cls, text, span, line, column⟩ := token
  have hclasses : ∀ cls ∈ TokenClass.ofText,
      (!Token.isSkippable true ⟨cls, text, span, line, column⟩ && cls != .ending) =
        decide (cls ∈ TokenClass.wordlike) := by
    simp only [TokenClass.ofText, List.forall_mem_cons]
    exact ⟨rfl, rfl, rfl, rfl, rfl, rfl, fun _ hmem => nomatch hmem⟩
  exact hclasses cls h

theorem Cursor.significant_placeAll (cursor : Cursor) {lexemes : List Lexeme}
    (h : ∀ lexeme ∈ lexemes, lexeme.cls ∈ TokenClass.ofText) :
    ((cursor.placeAll lexemes).filter fun token =>
        !token.isSkippable true && token.cls != .ending).map
          (fun token => (token.cls, token.text)) =
      (lexemes.filter (decide <| ·.cls ∈ TokenClass.wordlike)).map
        fun word => (word.cls, String.ofList word.text) := by
  induction lexemes generalizing cursor with
  | nil => rfl
  | cons lexeme rest ih =>
      obtain ⟨hlexeme, hrest⟩ := List.forall_mem_cons.1 h
      have hfirst : (cursor.token lexeme).cls ∈ TokenClass.ofText := hlexeme
      have hlater := ih (cursor.after lexeme) hrest
      rw [placeAll_cons, List.filter_cons, List.filter_cons, isSignificant_eq hfirst]
      by_cases hwordlike : lexeme.cls ∈ TokenClass.wordlike
      · have hword : (cursor.token lexeme).cls ∈ TokenClass.wordlike := hwordlike
        rw [if_pos (decide_eq_true hword), if_pos (decide_eq_true hwordlike), List.map_cons, hlater]
        rfl
      · have hother : (cursor.token lexeme).cls ∉ TokenClass.wordlike := hwordlike
        rw [decide_eq_false hother, decide_eq_false hwordlike]
        exact hlater

/-- The significant tokens of a text are its words. -/
theorem Lexer.significant_tokenize (lexer : Lexer) (text : String) :
    (lexer.tokenize text).significant.map (fun token => (token.cls, token.text)) =
      (lexer.words text.toList).map fun word => (word.cls, String.ofList word.text) := by
  rw [TokenStream.significant, toList_tokenize]
  exact Cursor.beginning.significant_placeAll fun _ => cls_of_mem_lexemes

namespace Grammar

/-- Spacing a text anew is harmless.  If no literal of a grammar holds white space and a text
    holds no quotes, then the texts of the significant tokens of the text, with a space
    between each two of them, have the same significant tokens. -/
theorem respacing_is_harmless (source : String) (grammar : Grammar)
    (h : compile source = .ok grammar)
    (hliterals : ∀ word ∈ grammar.rules.literals, ∀ c ∈ word.toList, Unicode.isWhiteSpace c = false)
    (text : String) (hquotes : ∀ quote ∈ ['"', '\'', '`'], quote ∉ text.toList) :
    let tokens := (grammar.lexer.tokenize text).significant
    let respaced := " ".intercalate (tokens.map Token.text)
    (grammar.lexer.tokenize respaced).significant.map (fun token => (token.cls, token.text)) =
      tokens.map fun token => (token.cls, token.text) := by
  intro tokens respaced
  obtain ⟨rules, hfile, rfl⟩ := compile_eq_ok.1 h
  have hne : ∀ word ∈ rules.literals, word.toList ≠ [] :=
    fun word hword => toList_ne_nil_of_mem_literals hfile hword
  let found := (ofRules rules).lexer.words text.toList
  have halone : ∀ word ∈ found, (ofRules rules).lexer.StandsAlone word := by
    intro word hword
    obtain ⟨hmem, hcls⟩ := List.mem_filter.1 hword
    exact standsAlone_of_mem_lexemes hliterals hne hquotes hmem (of_decide_eq_true hcls)
  have htokens : tokens.map (fun token => (token.cls, token.text)) =
      found.map fun word => (word.cls, String.ofList word.text) :=
    Lexer.significant_tokenize _ text
  have htexts : tokens.map (String.toList ∘ Token.text) = found.map Lexeme.text := by
    have hmapped := congrArg (List.map (String.toList ∘ Prod.snd)) htokens
    rw [List.map_map, List.map_map] at hmapped
    refine hmapped.trans (List.map_congr_left fun word _ => ?_)
    exact String.toList_ofList
  have hrespaced : respaced.toList = [' '].intercalate (found.map Lexeme.text) := by
    rw [String.toList_intercalate, List.map_map, htexts]
    rfl
  rw [Lexer.significant_tokenize, hrespaced, Lexer.words_intercalate halone, htokens]

theorem isSolid_anglesAndWord :
    ∀ word ∈ (ofRules anglesAndWord).rules.literals, IsSolid word.toList := by
  have hwords : (ofRules anglesAndWord).rules.literals = ["<a", "<=", "<"] := by decide +kernel
  have hall : ["<a", "<=", "<"].all
      (fun word => word.toList.all (!Unicode.isWhiteSpace ·)) = true := by decide
  simp only [List.all_eq_true, Bool.not_eq_true'] at hall
  rw [hwords]
  exact hall

/-- A keyword that a word runs on from stays out of it, and a letter that is part of no word
    stays a symbol. -/
theorem respaced_angles_are_kept :
    ∃ grammar, compile "ROOT := '<' '<=' '<a'" = .ok grammar ∧
      (∀ word ∈ grammar.rules.literals, ∀ c ∈ word.toList, Unicode.isWhiteSpace c = false) ∧
      (∀ quote ∈ ['"', '\'', '`'], quote ∉ "<=<ab<é".toList) ∧
      let tokens := (grammar.lexer.tokenize "<=<ab<é").significant
      " ".intercalate (tokens.map Token.text) = "<= < ab < é" ∧
        (grammar.lexer.tokenize (" ".intercalate (tokens.map Token.text))).significant.map
            (fun token => (token.cls, token.text)) =
          tokens.map fun token => (token.cls, token.text) := by
  have htexts : ((ofRules anglesAndWord).lexer.tokenize "<=<ab<é").significant.map
      Token.text = ["<=", "<", "ab", "<", "é"] := by decide +kernel
  have hquotes : ∀ quote ∈ ['"', '\'', '`'], quote ∉ "<=<ab<é".toList := by simp
  refine ⟨_, compile_anglesAndWord, isSolid_anglesAndWord, hquotes, ?_, ?_⟩
  · rw [htexts]
    rfl
  · exact respacing_is_harmless _ _ compile_anglesAndWord isSolid_anglesAndWord _ hquotes

end Grammar

end TokenGrammar
