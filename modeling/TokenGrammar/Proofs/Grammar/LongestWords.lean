/-
  TokenGrammar.Proofs.Grammar.LongestWords

  Which word is taken off a text.  No pass of the lexer of a grammar stops inside a word
  (`Lexer.endsWords_scan`), so that a run of word characters is never cut in two.  Of the
  literals that stand at a place the longest is taken, although keywords are looked for
  before symbols: a symbol that is longer than a keyword which stands there begins with it,
  and then the keyword is all punctuation and would be a symbol itself
  (`utf8ByteSize_le_of_isSymbolic`).

  Main statement: `Grammar.longest_literals_are_taken`.
-/

import Mathlib.Data.List.TakeWhile
import TokenGrammar.Proofs.Lexer.Lines
import TokenGrammar.Proofs.Grammar.LineCounts

namespace TokenGrammar

-- ============================================================================
-- The ends of words
-- ============================================================================

/-- No character of a word is punctuation. -/
theorem isPunctuation_eq_false_of_isWord {c : Char} (h : isWord c = true) :
    isPunctuation c = false := by
  have hascii : ∀ code, code < 128 → isWord (Char.ofNat code) = true →
      isPunctuation (Char.ofNat code) = false := by decide +kernel
  exact of_toNat_lt (fun c => isWord c = true → isPunctuation c = false) hascii
    (toNat_lt_of_isWord h) h

theorem endsOnBoundary_iff {word rest : List Char} :
    endsOnBoundary word rest = true ↔
      ∀ final ∈ word.getLast?, ∀ next ∈ rest.head?, isWord final = true → isWord next = false := by
  unfold endsOnBoundary
  cases word.getLast? with
  | none => simp
  | some final =>
      cases rest.head? with
      | none => simp
      | some next => cases hfinal : isWord final <;> simp [hfinal]

theorem endsOnBoundary_of_getLast? {word : List Char}
    (h : ∀ final ∈ word.getLast?, isWord final = false) (rest : List Char) :
    endsOnBoundary word rest = true := by
  refine endsOnBoundary_iff.2 fun final hfinal next _ hword => ?_
  rw [h final hfinal] at hword
  cases hword

theorem endsOnBoundary_of_head? {rest : List Char} (h : ∀ next ∈ rest.head?, isWord next = false)
    (word : List Char) : endsOnBoundary word rest = true :=
  endsOnBoundary_iff.2 fun _ _ next hnext _ => h next hnext

theorem endsOnBoundary_append_left {word : List Char} (h : word ≠ []) (before rest : List Char) :
    endsOnBoundary (before ++ word) rest = endsOnBoundary word rest := by
  rw [endsOnBoundary, List.getLast?_append_of_ne_nil _ h]
  rfl

theorem endsOnBoundary_append_right {next : List Char} (h : next ≠ []) (word rest : List Char) :
    endsOnBoundary word (next ++ rest) = endsOnBoundary word next := by
  rw [endsOnBoundary, List.head?_append_of_ne_nil _ h]
  rfl

-- ============================================================================
-- Passes do not stop inside a word
-- ============================================================================

/-- No word character stands both in front of and behind the place where a scan stops. -/
def Scan.EndsWords (scan : Scan) : Prop :=
  endsOnBoundary (scan.lexemes.flatMap Lexeme.text) scan.rest = true

/-- No word character quotes a string or ends a symbol. -/
structure Lexer.KeepsWords (lexer : Lexer) : Prop where
  quotes : ∀ quote ∈ lexer.quotes, isWord quote = false
  symbols : ∀ word ∈ lexer.symbols, ∀ final ∈ word.toList.getLast?, isWord final = false

namespace Scan

theorem endsWords_of_only {lexeme : Lexeme} {rest : List Char}
    (h : endsOnBoundary lexeme.text rest = true) : EndsWords ⟨[lexeme], rest⟩ := by
  rw [EndsWords, List.flatMap_singleton]
  exact h

/-- What holds where a scan stops holds behind what is passed after it. -/
theorem EndsWords.append {scan : Scan} (h : scan.EndsWords) {between next behind : List Char}
    (hrest : between ++ (next ++ behind) = scan.rest) (hne : next ≠ [])
    (hbetween : endsOnBoundary between next = true) :
    endsOnBoundary (scan.lexemes.flatMap Lexeme.text ++ between) next = true := by
  by_cases hnil : between = []
  · subst hnil
    rw [List.append_nil]
    rw [EndsWords, ← hrest, List.nil_append, endsOnBoundary_append_right hne] at h
    exact h
  · rw [endsOnBoundary_append_left hnil]
    exact hbetween

theorem endsWords_of_lineEnd? {text taken rest : List Char}
    (h : lineEnd? text = some (taken, rest)) (cls : TokenClass) (before : List Char) :
    EndsWords ⟨[⟨cls, before ++ taken, true⟩], rest⟩ := by
  obtain ⟨line, rfl, -⟩ := exists_of_lineEnd? h
  refine endsWords_of_only (endsOnBoundary_of_getLast? (fun final hfinal => ?_) rest)
  rw [← List.append_assoc, List.getLast?_concat] at hfinal
  rw [← Option.some.inj hfinal]
  decide

/-- A run of characters ends where a word does, if none of its characters is a word
    character or all other characters are not. -/
theorem endsWords_of_scanRun {cls : TokenClass} {p : Char → Bool} {c : Char} {text : List Char}
    {scan : Scan} (h : scanRun cls p (c :: text) = some scan)
    (hp : (∀ c, p c = true → isWord c = false) ∨ ∀ c, p c = false → isWord c = false) :
    scan.EndsWords := by
  obtain ⟨-, rfl⟩ := of_scanRun_eq_some h
  refine endsWords_of_only ?_
  rcases hp with hp | hp
  · refine endsOnBoundary_of_getLast? (fun final hfinal => hp final ?_) _
    exact List.mem_takeWhile_imp (List.mem_of_getLast? hfinal)
  · refine endsOnBoundary_of_head? (fun next hnext => hp next ?_) _
    exact eq_false_of_mem_head?_dropWhile next hnext

theorem endsWords_scanQuoted {quote : Char} (hquote : isWord quote = false) (text : List Char) :
    (scanQuoted quote text).EndsWords := by
  have hstops := payload_stops quote text
  unfold scanQuoted
  generalize payload quote text = found at hstops
  obtain ⟨held, left⟩ := found
  cases left with
  | nil => exact endsOnBoundary_of_head? (fun _ hnext => by cases hnext) _
  | cons c rest =>
      dsimp only
      split
      · refine endsOnBoundary_of_getLast? (fun final hfinal => ?_) _
        rw [List.flatMap_cons, List.flatMap_append, List.flatMap_singleton, ← List.append_assoc,
          List.getLast?_concat] at hfinal
        rw [← Option.some.inj hfinal]
        exact hquote
      · next hne =>
        refine endsOnBoundary_of_head? (fun next hnext => ?_) _
        rw [← Option.some.inj hnext]
        exact isWord_eq_false_of_isLineBreak ((hstops c rfl).resolve_right hne)

end Scan

namespace Lexer

variable {lexer : Lexer}

theorem endsWords_scan (hkeeps : lexer.KeepsWords) (c : Char) (text : List Char) :
    (lexer.scan c text).EndsWords := by
  unfold scan
  cases hfound : lexer.rules.findSome? (· (c :: text)) with
  | none =>
      have hrun : scanRun .identifier isWord (c :: text) = none :=
        List.findSome?_eq_none_iff.1 hfound _ (List.mem_of_getLast? rfl)
      refine Scan.endsWords_of_only (endsOnBoundary_of_getLast? (fun final hfinal => ?_) _)
      rw [← Option.some.inj hfinal]
      by_contra hword
      rw [scanRun, if_pos (Bool.not_eq_false _ ▸ hword)] at hrun
      cases hrun
  | some found =>
      rw [Option.getD_some]
      obtain ⟨rule, hrule, h⟩ := List.exists_of_findSome?_eq_some hfound
      simp only [rules, List.mem_cons, List.not_mem_nil, or_false] at hrule
      rcases hrule with rfl | rfl | rfl | rfl | rfl | rfl | rfl | rfl
      · obtain ⟨⟨taken, rest⟩, hend, rfl⟩ := Option.map_eq_some_iff.1 h
        exact Scan.endsWords_of_lineEnd? hend _ []
      · unfold scanContinuation at h
        split at h
        · obtain ⟨⟨taken, rest⟩, hend, rfl⟩ := Option.map_eq_some_iff.1 h
          exact Scan.endsWords_of_lineEnd? hend _ ['\\']
        · cases h
      · refine Scan.endsWords_of_scanRun h (.inl fun c hblank => ?_)
        by_contra hword
        rw [isBlank_eq_false_of_isWord (Bool.not_eq_false _ ▸ hword)] at hblank
        cases hblank
      · unfold scanComment at h
        split at h
        · split at h
          · exact Scan.endsWords_of_scanRun h (.inr fun c hbreak =>
              isWord_eq_false_of_isLineBreak (by simpa using hbreak))
          · cases h
        · cases h
      · simp only [scanString, Option.ite_none_right_eq_some, Option.some.injEq,
          List.contains_iff_mem] at h
        rw [← h.2]
        exact Scan.endsWords_scanQuoted (hkeeps.quotes c h.1) text
      · obtain ⟨word, -, rest, -, hends, rfl⟩ := of_scanWord_eq_some h
        exact Scan.endsWords_of_only hends
      · obtain ⟨word, hword, rest, -, -, rfl⟩ := of_scanWord_eq_some h
        exact Scan.endsWords_of_only (endsOnBoundary_of_getLast? (hkeeps.symbols word hword) rest)
      · exact Scan.endsWords_of_scanRun h (.inr fun _ h => h)

/-- A symbol, keyword or identifier that is no quote is what is taken where words are
    looked for, and it does not go on a word that the lexemes in front of it end with. -/
theorem word_of_lexemes_eq (hkeeps : lexer.KeepsWords) {text : List Char}
    {passed ahead : List Lexeme} {lexeme : Lexeme}
    (h : lexer.lexemes text = passed ++ lexeme :: ahead)
    (hcls : lexeme.cls ∈ TokenClass.wordlike)
    (hquote : ∀ quote ∈ lexer.quotes, lexeme.text ≠ [quote]) :
    endsOnBoundary (passed.flatMap Lexeme.text) lexeme.text = true ∧
      ∃ c more, lexeme.text = c :: more ∧
        lexer.scanWords c (more ++ ahead.flatMap Lexeme.text) =
          .single lexeme.cls lexeme.text (ahead.flatMap Lexeme.text) := by
  have hmem : lexeme ∈ lexer.lexemes text := by
    rw [h]
    exact List.mem_append_right passed List.mem_cons_self
  have hsolid := ne_nil_of_mem_lexemes hmem
  clear hmem
  fun_induction lexer.lexemes text generalizing passed
  case case1 =>
    exact absurd h.symm (List.append_ne_nil_of_right_ne_nil _ (List.cons_ne_nil _ _))
  case case2 c text found ih =>
    rcases exists_of_append_eq h with ⟨between, rfl, hrest⟩ | ⟨taken, htaken, rfl⟩
    · obtain ⟨hboundary, hword⟩ := ih hrest
      have hwhole := lexer.flatMap_lexemes found.rest
      rw [hrest, List.flatMap_append, List.flatMap_cons] at hwhole
      rw [List.flatMap_append]
      exact ⟨(endsWords_scan hkeeps c text).append hwhole hsolid hboundary, hword⟩
    · obtain ⟨cls, more, rest, hscan, rfl⟩ := lexer.exists_of_scanWords c text
      have hmem : lexeme ∈ found.lexemes := by
        rw [htaken]
        exact List.mem_append_right passed List.mem_cons_self
      have hfound : found = .single cls (c :: more) rest := by
        obtain ⟨-, ⟨hmark, htext⟩ | ⟨-, hwords⟩⟩ := word_of_mem_scan hmem hcls
        · exact absurd htext (hquote c hmark)
        · exact hwords.trans hscan
      -- Where words are looked for, a single lexeme is taken.
      rw [hfound] at htaken ⊢
      obtain ⟨rfl, hcons⟩ | ⟨-, hnil⟩ := List.append_eq_singleton_iff.1 htaken.symm
      · obtain ⟨rfl, rfl⟩ := List.cons.inj hcons
        refine ⟨rfl, c, more, rfl, ?_⟩
        rw [List.nil_append, lexer.flatMap_lexemes]
        exact hscan
      · cases hnil

end Lexer

-- ============================================================================
-- Tokens and their lexemes
-- ============================================================================

theorem Cursor.allText_place (cursor : Cursor) (lexemes : List Lexeme) :
    Token.allText (cursor.place lexemes) = lexemes.flatMap Lexeme.text := by
  have hall := cursor.allText_placeAll lexemes
  rw [placeAll, Token.allText, List.flatMap_append, List.flatMap_singleton] at hall
  exact (List.append_nil _).symm.trans hall

/-- A place in front of a token is one between lexemes. -/
theorem Cursor.exists_append_of_placeAll_eq {cursor : Cursor} {lexemes : List Lexeme}
    {earlier later : List Token} (hne : later ≠ [])
    (hsplit : cursor.placeAll lexemes = earlier ++ later) :
    ∃ passed ahead, lexemes = passed ++ ahead ∧ earlier = cursor.place passed ∧
      later = (cursor.afterAll passed).placeAll ahead := by
  induction earlier generalizing cursor lexemes with
  | nil => exact ⟨[], lexemes, rfl, rfl, hsplit.symm⟩
  | cons first earlier ih =>
      rcases lexemes with _ | ⟨lexeme, rest⟩
      · have hnil := (List.cons.inj hsplit).2
        exact absurd (List.append_eq_nil_iff.1 hnil.symm).2 hne
      · obtain ⟨rfl, hrest⟩ := List.cons.inj hsplit
        obtain ⟨passed, ahead, rfl, rfl, hlater⟩ := ih hrest
        exact ⟨lexeme :: passed, ahead, rfl, rfl, hlater⟩

/-- A token in front of the mark at the end is that of a lexeme, and the tokens around it
    hold what the lexemes around that one do. -/
theorem Cursor.exists_of_placeAll_eq {cursor : Cursor} {lexemes : List Lexeme}
    {earlier later : List Token} {token : Token} (hcls : token.cls ≠ .ending)
    (hsplit : cursor.placeAll lexemes = earlier ++ token :: later) :
    ∃ passed lexeme ahead, lexemes = passed ++ lexeme :: ahead ∧
      token = (cursor.afterAll passed).token lexeme ∧
      Token.allText earlier = passed.flatMap Lexeme.text ∧
      Token.allText later = ahead.flatMap Lexeme.text := by
  obtain ⟨passed, ahead, rfl, rfl, hahead⟩ :=
    exists_append_of_placeAll_eq (List.cons_ne_nil _ _) hsplit
  rcases ahead with _ | ⟨lexeme, ahead⟩
  · obtain ⟨rfl, -⟩ := List.cons.inj hahead
    exact absurd rfl hcls
  · obtain ⟨rfl, rfl⟩ := List.cons.inj hahead
    exact ⟨passed, lexeme, ahead, rfl, rfl, allText_place _ _, allText_placeAll _ _⟩

theorem Lexer.exists_of_tokenize_eq {lexer : Lexer} {text : String} {earlier later : List Token}
    {token : Token} (hcls : token.cls ∈ TokenClass.ofText)
    (hsplit : (lexer.tokenize text).toList = earlier ++ token :: later) :
    ∃ passed lexeme ahead, lexer.lexemes text.toList = passed ++ lexeme :: ahead ∧
      token = (Cursor.beginning.afterAll passed).token lexeme ∧
      Token.allText earlier = passed.flatMap Lexeme.text ∧
      Token.allText later = ahead.flatMap Lexeme.text := by
  rw [toList_tokenize] at hsplit
  cases earlier with
  | nil =>
      obtain ⟨rfl, -⟩ := List.cons.inj hsplit
      have hbeginning : TokenClass.beginning ∈ TokenClass.ofText := hcls
      exact absurd hbeginning (by decide)
  | cons first earlier =>
      obtain ⟨rfl, hrest⟩ := List.cons.inj hsplit
      have hplaced : Cursor.beginning.placeAll (lexer.lexemes text.toList) =
          earlier ++ token :: later := hrest
      have hinside : token.cls ≠ .ending := by
        intro hending
        rw [hending] at hcls
        exact absurd hcls (by decide)
      obtain ⟨passed, lexeme, ahead, hfound⟩ := Cursor.exists_of_placeAll_eq hinside hplaced
      exact ⟨passed, lexeme, ahead, hfound⟩

/-- A symbol, keyword or identifier of a text that is no quote is what is taken where words
    are looked for, and the text in front of it ends with no word that it goes on. -/
theorem Lexer.word_of_tokenize_eq {lexer : Lexer} (hkeeps : lexer.KeepsWords) {text : String}
    {earlier later : List Token} {token : Token}
    (hsplit : (lexer.tokenize text).toList = earlier ++ token :: later)
    (hcls : token.cls ∈ TokenClass.wordlike)
    (hquote : ∀ quote ∈ lexer.quotes, token.text ≠ String.singleton quote) :
    token.span.start = byteLength (Token.allText earlier) ∧
      endsOnBoundary (Token.allText earlier) token.text.toList = true ∧
      ∃ c more, token.text.toList = c :: more ∧
        lexer.scanWords c (more ++ Token.allText later) =
          .single token.cls token.text.toList (Token.allText later) := by
  have hoftext : ∀ cls ∈ TokenClass.wordlike, cls ∈ TokenClass.ofText := by decide
  obtain ⟨passed, lexeme, ahead, hlexemes, rfl, hearlier, hlater⟩ :=
    exists_of_tokenize_eq (hoftext _ hcls) hsplit
  have htext : ((Cursor.beginning.afterAll passed).token lexeme).text.toList = lexeme.text :=
    String.toList_ofList
  have hnoQuote : ∀ quote ∈ lexer.quotes, lexeme.text ≠ [quote] := by
    intro quote hmem hsingle
    refine hquote quote hmem (String.toList_inj.1 ?_)
    rw [htext, hsingle, String.toList_singleton]
  obtain ⟨hboundary, hword⟩ := word_of_lexemes_eq hkeeps hlexemes hcls hnoQuote
  rw [htext, hearlier, hlater]
  refine ⟨?_, hboundary, hword⟩
  exact (Cursor.offset_afterAll Cursor.beginning passed).trans (Nat.zero_add _)

-- ============================================================================
-- The longest literal
-- ============================================================================

/-- A word stands at the beginning of a text, and does not run on into a longer word. -/
def Stands (word : String) (text : List Char) : Prop :=
  ∃ rest, word.toList ++ rest = text ∧ endsOnBoundary word.toList rest = true

/-- A word is the longest of those that stand at the beginning of a text. -/
structure IsLongest (words : List String) (text : List Char) (word : String) : Prop where
  mem : word ∈ words
  stands : Stands word text
  longest : ∀ other ∈ words, Stands other text → other.utf8ByteSize ≤ word.utf8ByteSize

/-- What stands in the middle of a text is a run of word characters that goes on in neither
    direction. -/
structure IsWholeRun (before run behind : List Char) : Prop where
  ne_nil : run ≠ []
  isWord : ∀ c ∈ run, isWord c = true
  begins : ∀ c ∈ before.getLast?, TokenGrammar.isWord c = false
  ends : ∀ c ∈ behind.head?, TokenGrammar.isWord c = false

/-- A symbol is no longer than a keyword that stands at the same place: otherwise it would
    begin with that keyword, which then were all punctuation as well. -/
theorem utf8ByteSize_le_of_isSymbolic {word other : String} {rest behind : List Char}
    (hword : isSymbolic word = false) (hother : isSymbolic other = true)
    (h : other.toList ++ behind = word.toList ++ rest) :
    other.utf8ByteSize ≤ word.utf8ByteSize := by
  rcases List.append_eq_append_iff.1 h with ⟨more, hmore, -⟩ | ⟨more, hmore, -⟩
  · have hbytes := congrArg byteLength hmore
    rw [byteLength_append, byteLength_toList, byteLength_toList] at hbytes
    omega
  · rw [isSymbolic, hmore, List.all_append, Bool.and_eq_true] at hother
    rw [isSymbolic, hother.1] at hword
    cases hword

theorem Stands.endsOnBoundary {word : String} {text : List Char} (h : Stands word text)
    {rest : List Char} (hrest : word.toList ++ rest = text) :
    endsOnBoundary word.toList rest = true := by
  obtain ⟨found, rfl, hends⟩ := h
  rw [List.append_cancel_left hrest]
  exact hends

namespace Grammar

variable {rules : RuleTable} {text : List Char}

theorem keepsWords_lexer (rules : RuleTable) (opening : String) :
    ((ofRules rules).lexer.withLineComment opening).KeepsWords := by
  have hmarks : defaultQuotes.all (!isWord ·) = true := by decide
  refine ⟨fun quote hquote => ?_, fun word hword final hfinal => ?_⟩
  · simpa using List.all_eq_true.1 hmarks quote hquote
  · have hpunctuation := List.all_eq_true.1 (mem_symbols_lexer.1 hword).1.2 final
      (List.mem_of_getLast? hfinal)
    by_contra hisWord
    rw [isPunctuation_eq_false_of_isWord (Bool.not_eq_false _ ▸ hisWord)] at hpunctuation
    cases hpunctuation

section Registries

variable (hsolid : ∀ word ∈ rules.literals, word.toList ≠ [])
include hsolid

/-- A literal that is not all punctuation is registered as a keyword. -/
theorem mem_keywords_of_mem_literals {word : String} (hmem : word ∈ rules.literals)
    (h : isSymbolic word = false) : word ∈ (ofRules rules).lexer.keywords :=
  mem_keywords_lexer.2 ⟨⟨hmem, h⟩, mt String.toList_eq_nil_iff.2 (hsolid word hmem)⟩

/-- A literal that is all punctuation is registered as a symbol. -/
theorem mem_symbols_of_mem_literals {word : String} (hmem : word ∈ rules.literals)
    (h : isSymbolic word = true) : word ∈ (ofRules rules).lexer.symbols :=
  mem_symbols_lexer.2 ⟨⟨hmem, h⟩, mt String.toList_eq_nil_iff.2 (hsolid word hmem)⟩

theorem isSome_scanKeyword {word : String} (hmem : word ∈ rules.literals)
    (hkeyword : isSymbolic word = false) (h : Stands word text) :
    ((ofRules rules).lexer.scanKeyword text).isSome = true := by
  obtain ⟨rest, rfl, hends⟩ := h
  exact isSome_scanWord (mem_keywords_of_mem_literals hsolid hmem hkeyword) (hsolid word hmem)
    hends

theorem isSome_scanSymbol {word : String} (hmem : word ∈ rules.literals)
    (hsymbol : isSymbolic word = true) (h : Stands word text) :
    ((ofRules rules).lexer.scanSymbol text).isSome = true := by
  obtain ⟨rest, rfl, -⟩ := h
  exact isSome_scanWord (mem_symbols_of_mem_literals hsolid hmem hsymbol) (hsolid word hmem) rfl

/-- The keyword that is found is the longest literal that stands there. -/
theorem isLongest_of_scanKeyword {scan : Scan}
    (h : (ofRules rules).lexer.scanKeyword text = some scan) :
    ∃ word rest, IsLongest rules.literals text word ∧
      scan = .single (literalClass word) word.toList rest := by
  obtain ⟨word, hword, rest, happend, hends, rfl, hlongest⟩ :=
    longest_of_scanWord (pairwise_sortLongestFirst _) h
  obtain ⟨⟨hmem, hkeyword⟩, -⟩ := mem_keywords_lexer.1 hword
  refine ⟨word, rest, ⟨hmem, ⟨rest, happend, hends⟩, ?_⟩, ?_⟩
  · rintro other hother ⟨behind, hbehind, hfollow⟩
    cases hsymbolic : isSymbolic other with
    | true => exact utf8ByteSize_le_of_isSymbolic hkeyword hsymbolic (hbehind.trans happend.symm)
    | false =>
        exact hlongest other (mem_keywords_of_mem_literals hsolid hother hsymbolic) behind
          (hsolid other hother) hbehind hfollow
  · rw [literalClass, hkeyword]
    rfl

/-- Where no keyword is found, the symbol that is found is the longest literal that stands
    there. -/
theorem isLongest_of_scanSymbol {scan : Scan}
    (hnone : (ofRules rules).lexer.scanKeyword text = none)
    (h : (ofRules rules).lexer.scanSymbol text = some scan) :
    ∃ word rest, IsLongest rules.literals text word ∧
      scan = .single (literalClass word) word.toList rest := by
  obtain ⟨word, hword, rest, happend, -, rfl, hlongest⟩ :=
    longest_of_scanWord (pairwise_sortLongestFirst _) h
  obtain ⟨⟨hmem, hsymbol⟩, -⟩ := mem_symbols_lexer.1 hword
  have hends : endsOnBoundary word.toList rest = true :=
    endsOnBoundary_of_getLast? ((keepsWords_lexer rules "").symbols word hword) rest
  refine ⟨word, rest, ⟨hmem, ⟨rest, happend, hends⟩, fun other hother hstands => ?_⟩, ?_⟩
  · cases hsymbolic : isSymbolic other with
    | true =>
        obtain ⟨behind, hbehind, -⟩ := hstands
        exact hlongest other (mem_symbols_of_mem_literals hsolid hother hsymbolic) behind
          (hsolid other hother) hbehind rfl
    | false =>
        have hsome := isSome_scanKeyword hsolid hother hsymbolic hstands
        rw [hnone] at hsome
        cases hsome
  · rw [literalClass, hsymbol]
    rfl

/-- Where a literal stands, the longest that does is found. -/
theorem exists_isLongest {c : Char} {rest : List Char}
    (h : ∃ word ∈ rules.literals, Stands word (c :: rest)) :
    ∃ word left, IsLongest rules.literals (c :: rest) word ∧
      (ofRules rules).lexer.scanWords c rest =
        .single (literalClass word) word.toList left := by
  obtain ⟨standing, hmem, hstands⟩ := h
  unfold Lexer.scanWords
  rw [List.findSome?_cons]
  cases hkeyword : (ofRules rules).lexer.scanKeyword (c :: rest) with
  | some found => exact isLongest_of_scanKeyword hsolid hkeyword
  | none =>
      rw [List.findSome?_cons]
      cases hsymbol : (ofRules rules).lexer.scanSymbol (c :: rest) with
      | some found => exact isLongest_of_scanSymbol hsolid hkeyword hsymbol
      | none =>
          cases hsymbolic : isSymbolic standing with
          | true =>
              have hsome := isSome_scanSymbol hsolid hmem hsymbolic hstands
              rw [hsymbol] at hsome
              cases hsome
          | false =>
              have hsome := isSome_scanKeyword hsolid hmem hsymbolic hstands
              rw [hkeyword] at hsome
              cases hsome

/-- What is taken where a literal stands is the longest that does. -/
theorem isLongest_of_stands {c : Char} {rest taken behind : List Char} {cls : TokenClass}
    (h : ∃ word ∈ rules.literals, Stands word (c :: rest))
    (hscan : (ofRules rules).lexer.scanWords c rest = .single cls taken behind) :
    IsLongest rules.literals (c :: rest) (String.ofList taken) ∧
      cls = literalClass (String.ofList taken) := by
  obtain ⟨word, left, hlongest, hfound⟩ := exists_isLongest hsolid h
  obtain ⟨⟨rfl, rfl⟩, -⟩ : (literalClass word = cls ∧ word.toList = taken) ∧ left = behind := by
    simpa [Scan.single] using hfound.symm.trans hscan
  rw [String.ofList_toList]
  exact ⟨hlongest, rfl⟩

end Registries

/-- Where no literal stands, a run of word characters is taken or a single character. -/
theorem scanWords_of_not_stands {c : Char} {rest : List Char}
    (h : ∀ word ∈ rules.literals, ¬ Stands word (c :: rest)) :
    (ofRules rules).lexer.scanWords c rest =
      (scanRun .identifier isWord (c :: rest)).getD (.single .symbol [c] rest) := by
  have hkeyword : (ofRules rules).lexer.scanKeyword (c :: rest) = none := by
    rw [Option.eq_none_iff_forall_ne_some]
    intro scan hscan
    obtain ⟨word, hword, behind, happend, hends, -⟩ := of_scanWord_eq_some hscan
    exact h word (mem_keywords_lexer.1 hword).1.1 ⟨behind, happend, hends⟩
  have hsymbol : (ofRules rules).lexer.scanSymbol (c :: rest) = none := by
    rw [Option.eq_none_iff_forall_ne_some]
    intro scan hscan
    obtain ⟨word, hword, behind, happend, -⟩ := of_scanWord_eq_some hscan
    exact h word (mem_symbols_lexer.1 hword).1.1 ⟨behind, happend,
      endsOnBoundary_of_getLast? ((keepsWords_lexer rules "").symbols word hword) behind⟩
  unfold Lexer.scanWords
  rw [List.findSome?_cons, hkeyword, List.findSome?_cons, hsymbol, List.findSome?_singleton]

/-- Where no literal stands, what is taken is a whole run of word characters, if no word
    is cut in front of it, or else a single character. -/
theorem run_or_character {c : Char} {rest before taken behind : List Char} {cls : TokenClass}
    (h : ∀ word ∈ rules.literals, ¬ Stands word (c :: rest))
    (hscan : (ofRules rules).lexer.scanWords c rest = .single cls taken behind)
    (hbefore : endsOnBoundary before taken = true) :
    (cls = .identifier ∧ IsWholeRun before taken behind) ∨
      (cls = .symbol ∧ taken = [c] ∧ isWord c = false) := by
  rw [scanWords_of_not_stands h, scanRun] at hscan
  cases hword : isWord c with
  | true =>
      rw [if_pos hword, Option.getD_some] at hscan
      obtain ⟨⟨rfl, htaken⟩, rfl⟩ : (.identifier = cls ∧ (c :: rest).takeWhile isWord = taken) ∧
          (c :: rest).dropWhile isWord = behind := by
        simpa [Scan.single] using hscan
      have hfirst : taken.head? = some c := by
        rw [← htaken, List.takeWhile_cons_of_pos hword]
        rfl
      refine .inl ⟨rfl, ?_, fun c hc => ?_, fun final hfinal => ?_, fun next hnext => ?_⟩
      · rintro rfl
        cases hfirst
      · rw [← htaken] at hc
        exact List.mem_takeWhile_imp hc
      · by_contra hrunsOn
        have hends := endsOnBoundary_iff.1 hbefore final hfinal c hfirst
          (Bool.not_eq_false _ ▸ hrunsOn)
        rw [hword] at hends
        cases hends
      · exact eq_false_of_mem_head?_dropWhile next hnext
  | false =>
      rw [if_neg (by rw [hword]; decide), Option.getD_none] at hscan
      obtain ⟨⟨rfl, rfl⟩, -⟩ : (.symbol = cls ∧ [c] = taken) ∧ rest = behind := by
        simpa [Scan.single] using hscan
      exact .inr ⟨rfl, rfl, rfl⟩

/-- Which symbol, keyword or identifier is taken off a text, if it is no quote.  The tokens
    around it hold what stands in front of it and behind it.  If a literal stands where it
    begins, it is the longest literal that does, and a symbol exactly if that is all
    punctuation.  If none does, it is a run of word characters that goes on in neither
    direction, or a single character that is part of no word.  So the text of an identifier
    is never that of a literal. -/
theorem longest_literals_are_taken (source : String) (grammar : Grammar)
    (h : compile source = .ok grammar) (opening text : String) (earlier later : List Token)
    (token : Token)
    (hsplit : ((grammar.lexer.withLineComment opening).tokenize text).toList =
      earlier ++ token :: later)
    (hcls : token.cls ∈ TokenClass.wordlike)
    (hquote : ∀ quote ∈ grammar.lexer.quotes, token.text ≠ String.singleton quote) :
    let before := Token.allText earlier
    let behind := Token.allText later
    let ahead := token.text.toList ++ behind
    text.toList = before ++ ahead ∧ token.span.start = byteLength before ∧
      ((∃ word ∈ grammar.rules.literals, Stands word ahead) →
        IsLongest grammar.rules.literals ahead token.text ∧
          token.cls = literalClass token.text) ∧
      ((∀ word ∈ grammar.rules.literals, ¬ Stands word ahead) →
        (token.cls = .identifier ∧ IsWholeRun before token.text.toList behind) ∨
          (token.cls = .symbol ∧ ∃ c, token.text = String.singleton c ∧ isWord c = false)) ∧
      (token.cls = .identifier → token.text ∉ grammar.rules.literals) := by
  intro before behind ahead
  obtain ⟨rules, hfile, rfl⟩ := compile_eq_ok.1 h
  have hsolid : ∀ word ∈ rules.literals, word.toList ≠ [] :=
    fun word hword => toList_ne_nil_of_mem_literals hfile hword
  obtain ⟨hstart, hboundary, c, more, hcons, hscan⟩ :=
    Lexer.word_of_tokenize_eq (keepsWords_lexer rules opening) hsplit hcls hquote
  have hahead : ahead = c :: (more ++ behind) := congrArg (· ++ behind) hcons
  have hstands : (∃ word ∈ rules.literals, Stands word ahead) →
      IsLongest rules.literals ahead token.text ∧ token.cls = literalClass token.text := by
    intro hstanding
    rw [hahead] at hstanding ⊢
    have hlongest := isLongest_of_stands hsolid hstanding hscan
    rw [String.ofList_toList] at hlongest
    exact hlongest
  have hother : (∀ word ∈ rules.literals, ¬ Stands word ahead) →
      (token.cls = .identifier ∧ IsWholeRun before token.text.toList behind) ∨
        (token.cls = .symbol ∧ ∃ c, token.text = String.singleton c ∧ isWord c = false) := by
    intro hnone
    rw [hahead] at hnone
    rcases run_or_character hnone hscan hboundary with hrun | ⟨hsymbol, hsingle, hchar⟩
    · exact .inl hrun
    · refine .inr ⟨hsymbol, c, String.toList_inj.1 ?_, hchar⟩
      rw [hsingle, String.toList_singleton]
  refine ⟨?_, hstart, hstands, hother, fun hidentifier hmem => ?_⟩
  · rw [← Lexer.allText_tokenize _ text, hsplit]
    exact List.flatMap_append
  · -- A literal that were an identifier would stand there, and be a keyword or a symbol.
    by_cases hstanding : ∃ word ∈ rules.literals, Stands word ahead
    · have hliteral := (hstands hstanding).2
      rw [hidentifier, literalClass] at hliteral
      split at hliteral <;> cases hliteral
    · have hnone : ∀ word ∈ rules.literals, ¬ Stands word ahead :=
        fun word hword hstands => hstanding ⟨word, hword, hstands⟩
      rcases hother hnone with ⟨-, hrun⟩ | ⟨hsymbol, -⟩
      · exact hnone _ hmem ⟨behind, rfl, endsOnBoundary_of_head? hrun.ends _⟩
      · rw [hidentifier] at hsymbol
        cases hsymbol

/-- A symbol, a longer one that begins with it, and a keyword that does. -/
def anglesAndWord : RuleTable :=
  ⟨[⟨"ROOT", [.terminal .plain ⟨8, 11⟩ (.literal "<"), .terminal .plain ⟨12, 16⟩ (.literal "<="),
    .terminal .plain ⟨17, 21⟩ (.literal "<a")], ⟨0, 21⟩⟩], by decide⟩

theorem compile_anglesAndWord :
    compile "ROOT := '<' '<=' '<a'" = .ok (ofRules anglesAndWord) := by decide +kernel

/-- In front of `ab` the keyword runs on into a word, so that the shorter symbol is the
    longest literal there, and what is behind it is an identifier. -/
theorem symbol_is_longest_before_word :
    ∃ grammar earlier later, compile "ROOT := '<' '<=' '<a'" = .ok grammar ∧
      ((grammar.lexer.withLineComment "#").tokenize "<=<ab").toList =
        earlier ++ ⟨.symbol, "<", ⟨2, 3⟩, 1, 3⟩ :: later ∧
      later.map Token.cls = [.identifier, .ending] ∧
      IsLongest grammar.rules.literals "<ab".toList "<" := by
  let earlier : List Token := [⟨.beginning, "", ⟨0, 0⟩, 1, 1⟩, ⟨.symbol, "<=", ⟨0, 2⟩, 1, 1⟩]
  let later : List Token := [⟨.identifier, "ab", ⟨3, 5⟩, 1, 4⟩, ⟨.ending, "", ⟨5, 5⟩, 1, 6⟩]
  have hsplit : (((ofRules anglesAndWord).lexer.withLineComment "#").tokenize "<=<ab").toList =
      earlier ++ ⟨.symbol, "<", ⟨2, 3⟩, 1, 3⟩ :: later := by decide +kernel
  have hquotes : defaultQuotes.all ("<" != String.singleton ·) = true := by decide
  have hquote : ∀ quote ∈ defaultQuotes, "<" ≠ String.singleton quote :=
    fun quote hmem => bne_iff_ne.1 (List.all_eq_true.1 hquotes quote hmem)
  obtain ⟨-, -, hlongest, -⟩ := longest_literals_are_taken _ _ compile_anglesAndWord "#" _ _ _ _
    hsplit List.mem_cons_self hquote
  exact ⟨_, earlier, later, compile_anglesAndWord, hsplit, rfl,
    (hlongest ⟨"<", by decide, "ab".toList, rfl, rfl⟩).1⟩

end Grammar

end TokenGrammar
