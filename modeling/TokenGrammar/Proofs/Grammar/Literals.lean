/-
  TokenGrammar.Proofs.Grammar.Literals

  Whether the literals of a grammar are found by the grammar's own lexer.  A literal is
  taken as a single token if a text has nothing else, unless white space, a continued
  line or a quote is taken off it before; in that case no text has a token that the
  literal matches.

  Main statement: `Grammar.finds_literals`.
-/

import TokenGrammar.Proofs.Grammar.Printed
import TokenGrammar.Proofs.Match.Consumption

namespace TokenGrammar

/-- The class of the token that a literal is. -/
def literalClass (text : String) : TokenClass := if isSymbolic text then .symbol else .keyword

theorem literalClass_mem_wordlike (text : String) : literalClass text ∈ TokenClass.wordlike := by
  unfold literalClass
  split
  · exact List.mem_cons_self
  · exact List.mem_cons_of_mem _ List.mem_cons_self

-- ============================================================================
-- The lexer of a grammar
-- ============================================================================

namespace Grammar

theorem mem_symbols_lexer {rules : RuleTable} {word : String} :
    word ∈ (ofRules rules).lexer.symbols ↔
      (word ∈ rules.literals ∧ isSymbolic word = true) ∧ word ≠ "" := by
  show word ∈ sortLongestFirst ([] ++ symbolicWords rules.literals) ↔ _
  rw [mem_sortLongestFirst, List.nil_append, symbolicWords, mem_sortLongestFirst, List.mem_filter,
    String.isEmpty_eq_false_iff]
  exact and_iff_left_of_imp And.right

theorem mem_keywords_lexer {rules : RuleTable} {word : String} :
    word ∈ (ofRules rules).lexer.keywords ↔
      (word ∈ rules.literals ∧ isSymbolic word = false) ∧ word ≠ "" := by
  show word ∈ sortLongestFirst ([] ++ keywordWords rules.literals) ↔ _
  rw [mem_sortLongestFirst, List.nil_append, keywordWords, mem_sortLongestFirst, List.mem_filter,
    Bool.not_eq_true', String.isEmpty_eq_false_iff]
  exact and_iff_left_of_imp And.right

/-- Literals hold something. -/
theorem toList_ne_nil_of_mem_literals {source : String} {rules : RuleTable}
    (h : IsFile (sourceItems source) rules.rules) {text : String} (hmem : text ∈ rules.literals) :
    text.toList ≠ [] :=
  ((h.pieces (ofSource_sourceItems source)).2 _ (RuleTable.mem_literals_iff.1 hmem)).1

/-- No keyword stands at the beginning of a text that is all punctuation. -/
theorem scanKeyword_of_isSymbolic {rules : RuleTable} {text : String}
    (h : isSymbolic text = true) : (ofRules rules).lexer.scanKeyword text.toList = none := by
  cases hscan : (ofRules rules).lexer.scanKeyword text.toList with
  | none => rfl
  | some scan =>
      obtain ⟨word, hword, rest, happend, -, -⟩ := of_scanWord_eq_some hscan
      have hsymbolic : isSymbolic word = true := by
        rw [isSymbolic, ← happend, List.all_append, Bool.and_eq_true] at h
        exact h.1
      rw [(mem_keywords_lexer.1 hword).1.2] at hsymbolic
      cases hsymbolic

/-- Where words are looked for, a literal is taken whole. -/
theorem scanWords_literal {rules : RuleTable} {text : String} (hmem : text ∈ rules.literals)
    {c : Char} {rest : List Char} (h : text.toList = c :: rest) :
    (ofRules rules).lexer.scanWords c rest = .single (literalClass text) text.toList [] := by
  have hne : text.toList ≠ [] := by
    rw [h]
    exact List.cons_ne_nil c rest
  have hfull : text ≠ "" := mt String.toList_eq_nil_iff.2 hne
  unfold Lexer.scanWords
  rw [← h, List.findSome?_cons, literalClass]
  cases hsymbolic : isSymbolic text with
  | true =>
      have hsymbol : (ofRules rules).lexer.scanSymbol text.toList =
          some (.single .symbol text.toList []) :=
        scanWord_self (pairwise_sortLongestFirst _)
          (mem_symbols_lexer.2 ⟨⟨hmem, hsymbolic⟩, hfull⟩) hne rfl
      rw [scanKeyword_of_isSymbolic hsymbolic, List.findSome?_cons, hsymbol]
      rfl
  | false =>
      have hends : endsOnBoundary text.toList [] = true := by
        unfold endsOnBoundary
        split
        · next hnone => cases hnone
        · rfl
      have hkeyword : (ofRules rules).lexer.scanKeyword text.toList =
          some (.single .keyword text.toList []) :=
        scanWord_self (pairwise_sortLongestFirst _)
          (mem_keywords_lexer.2 ⟨⟨hmem, hsymbolic⟩, hfull⟩) hne hends
      rw [hkeyword]
      rfl

/-- A literal off which nothing else is taken before is taken whole. -/
theorem lexemes_literal {rules : RuleTable} {text : String} (hmem : text ∈ rules.literals)
    (hne : text.toList ≠ []) (h : isShadowed text.toList = false) :
    (ofRules rules).lexer.lexemes text.toList = [⟨literalClass text, text.toList, false⟩] := by
  obtain ⟨c, rest, hcs⟩ := List.exists_cons_of_ne_nil hne
  rw [hcs, isShadowed_eq_false_iff] at h
  have hscan : (ofRules rules).lexer.scan c rest =
      .single (literalClass text) text.toList [] := by
    rw [Lexer.scan_of_isBare _ h.1]
    show (if c ∈ defaultQuotes then _ else _) = _
    split
    · next hquote =>
      have hmarks : defaultQuotes.all isPunctuation = true := by decide +kernel
      have hsymbolic : isSymbolic text = true := by
        rw [isSymbolic, hcs, h.2 hquote, List.all_cons, List.all_eq_true.1 hmarks c hquote]
        rfl
      rw [literalClass, if_pos hsymbolic, hcs, h.2 hquote]
      rfl
    · exact scanWords_literal hmem hcs
  rw [hcs, Lexer.lexemes_cons, hscan, ← hcs]
  exact congrArg (_ :: ·) (Lexer.lexemes_nil _)

end Grammar

-- ============================================================================
-- Tokens
-- ============================================================================

theorem Terminal.holds_literal_iff {text : String} {token : Token} :
    (Terminal.literal text).holds token = true ↔
      token.cls ∈ TokenClass.wordlike ∧ token.text = text := by
  simp only [holds, Bool.and_eq_true, Bool.or_eq_true, beq_iff_eq, TokenClass.wordlike,
    List.mem_cons, List.not_mem_nil, or_false, or_assoc]

/-- A literal only matches tokens of its text. -/
theorem Terminal.of_matchAt_literal {text : String} {adjacent : Bool} {reader : Reader}
    {found : Matched × Reader} (h : (Terminal.literal text).matchAt adjacent reader = .ok found) :
    ∃ position, (reader.stream.get position).cls ∈ TokenClass.wordlike ∧
      (reader.stream.get position).text = text := by
  have hsingle : (Terminal.literal text).matchSingle adjacent reader = .ok found := h
  unfold matchSingle at hsingle
  dsimp only at hsingle
  split at hsingle
  · next hholds =>
    rw [Reader.next_eq] at hholds
    exact ⟨_, holds_literal_iff.1 hholds⟩
  · cases hsingle

/-- The first token behind the mark at the beginning is matched by a literal of its
    text. -/
theorem Terminal.matchAt_literal {token ending : Token} (h : token.cls ∈ TokenClass.wordlike)
    (adjacent skipLines : Bool) :
    let stream : TokenStream := ⟨#[Cursor.beginning.mark .beginning, token], ending⟩
    (Terminal.literal token.text).matchAt adjacent ⟨stream, 0, skipLines⟩ =
      .ok (⟨token.cls, token.text, token.span, 1⟩, ⟨stream, 2, skipLines⟩) := by
  intro stream
  have hskip : token.isSkippable skipLines = false := by
    simp only [TokenClass.wordlike, List.mem_cons, List.not_mem_nil, or_false] at h
    rcases h with h | h | h <;> rw [Token.isSkippable, h]
  have hnext : Reader.next ⟨stream, 0, skipLines⟩ adjacent = ⟨1, token, ⟨stream, 2, skipLines⟩⟩ := by
    cases adjacent with
    | true => rfl
    | false =>
        have hposition : Reader.significantPosition ⟨stream, 0, skipLines⟩ = 1 := by
          show (if token.isSkippable skipLines = true then _ else 1) = 1
          rw [hskip]
          rfl
        rw [Reader.next, if_neg Bool.false_ne_true, Reader.read, Reader.peek, hposition]
        rfl
  show Terminal.matchSingle _ adjacent _ = _
  rw [matchSingle, hnext]
  dsimp only
  rw [if_pos (holds_literal_iff.2 ⟨h, rfl⟩)]
  rfl

/-- A literal whose text is shadowed matches no token of any text. -/
theorem Terminal.matchAt_of_isShadowed {lexer : Lexer} (hquotes : lexer.quotes = defaultQuotes)
    {text input : String} (h : isShadowed text.toList = true) (adjacent : Bool) {reader : Reader}
    (hstream : reader.stream = lexer.tokenize input) :
    ∃ miss, (Terminal.literal text).matchAt adjacent reader = .error miss := by
  cases hmatch : (Terminal.literal text).matchAt adjacent reader with
  | error miss => exact ⟨miss, rfl⟩
  | ok found =>
      obtain ⟨position, hcls, htext⟩ := of_matchAt_literal hmatch
      rw [hstream] at hcls htext
      have hwords : ∀ cls ∈ TokenClass.wordlike, cls ∈ TokenClass.ofText := by decide
      obtain ⟨lexeme, hlexeme, place, htoken⟩ := Lexer.exists_lexeme_of_get (hwords _ hcls)
      rw [htoken] at hcls htext
      have hfree := Lexer.isShadowed_of_mem_lexemes hquotes hlexeme hcls
      rw [← htext, Cursor.token, String.toList_ofList, hfree] at h
      cases h

namespace Grammar

/-- The tokens of the text of a literal off which nothing else is taken before. -/
theorem tokenize_literal {rules : RuleTable} {text : String} (hmem : text ∈ rules.literals)
    (hne : text.toList ≠ []) (h : isShadowed text.toList = false) :
    (ofRules rules).lexer.tokenize text =
      ⟨#[⟨.beginning, "", ⟨0, 0⟩, 1, 1⟩, ⟨literalClass text, text, ⟨0, text.utf8ByteSize⟩, 1, 1⟩],
        ⟨.ending, "", ⟨text.utf8ByteSize, text.utf8ByteSize⟩, 1, 1 + text.length⟩⟩ := by
  unfold Lexer.tokenize
  rw [lexemes_literal hmem hne h]
  simp only [Cursor.place, Cursor.token, Cursor.afterAll, List.foldl_cons, List.foldl_nil,
    Cursor.after, Cursor.mark, Cursor.beginning, byteLength_toList, String.ofList_toList,
    Nat.zero_add, Bool.false_eq_true, if_false, String.length_toList]

/-- Whether a literal of a grammar can be found.  If nothing else is taken off its text
    before, that text is a single token, which the literal matches; if something is, no
    text at all has a token that the literal matches. -/
theorem finds_literals (source : String) (grammar : Grammar) (h : compile source = .ok grammar)
    (text : String) (hmem : text ∈ grammar.rules.literals) :
    (isShadowed text.toList = false →
      let stream := grammar.lexer.tokenize text
      let span : Span := ⟨0, text.utf8ByteSize⟩
      stream.toList =
        [⟨.beginning, "", ⟨0, 0⟩, 1, 1⟩, ⟨literalClass text, text, span, 1, 1⟩,
          ⟨.ending, "", ⟨span.stop, span.stop⟩, 1, 1 + text.length⟩] ∧
      ∀ adjacent skipLines, (Terminal.literal text).matchAt adjacent ⟨stream, 0, skipLines⟩ =
        .ok (⟨literalClass text, text, span, 1⟩, ⟨stream, 2, skipLines⟩)) ∧
    (isShadowed text.toList = true → ∀ input adjacent reader,
      reader.stream = grammar.lexer.tokenize input →
        ∃ miss, (Terminal.literal text).matchAt adjacent reader = .error miss) := by
  obtain ⟨rules, hfile, rfl⟩ := compile_eq_ok.1 h
  have hliteral : text ∈ rules.literals := hmem
  have hne := toList_ne_nil_of_mem_literals hfile hliteral
  constructor
  · intro hfree stream span
    have hstream : stream = _ := tokenize_literal hliteral hne hfree
    rw [hstream]
    exact ⟨rfl, Terminal.matchAt_literal (literalClass_mem_wordlike text)⟩
  · intro hshadowed input adjacent reader hstream
    exact Terminal.matchAt_of_isShadowed rfl hshadowed adjacent hstream

/-- A symbol and a keyword are found, a space is not. -/
theorem finds_literals_but_space :
    ∃ grammar, compile "ROOT := '<=' 'if' ' '" = .ok grammar ∧
      (grammar.lexer.tokenize "<=").toList.map Token.cls = [.beginning, .symbol, .ending] ∧
      (grammar.lexer.tokenize "if").toList.map Token.cls = [.beginning, .keyword, .ending] ∧
      ∀ input adjacent reader, reader.stream = grammar.lexer.tokenize input →
        ∃ miss, (Terminal.literal " ").matchAt adjacent reader = .error miss := by
  have hcompile : compile "ROOT := '<=' 'if' ' '" = .ok (.ofRules
      ⟨[⟨"ROOT", [.terminal .plain ⟨8, 12⟩ (.literal "<="),
        .terminal .plain ⟨13, 17⟩ (.literal "if"), .terminal .plain ⟨18, 21⟩ (.literal " ")],
        ⟨0, 21⟩⟩], by decide⟩) := by decide +kernel
  have hfinds := finds_literals _ _ hcompile
  have hsymbol := ((hfinds "<=" (by decide)).1 (by decide)).1
  have hkeyword := ((hfinds "if" (by decide)).1 (by decide)).1
  refine ⟨_, hcompile, ?_, ?_, (hfinds " " (by decide)).2 (by decide)⟩
  · rw [hsymbol]
    decide
  · rw [hkeyword]
    decide

/-- A literal that is a space compiles, but the text of one space is no token that the
    literal matches, nor does any other text have one. -/
theorem space_is_not_found :
    ∃ grammar, compile "ROOT := ' '" = .ok grammar ∧ " " ∈ grammar.rules.literals ∧
      (grammar.lexer.tokenize " ").toList.map Token.cls = [.beginning, .space, .ending] ∧
      ∀ input adjacent reader, reader.stream = grammar.lexer.tokenize input →
        ∃ miss, (Terminal.literal " ").matchAt adjacent reader = .error miss := by
  let rules : RuleTable :=
    ⟨[⟨"ROOT", [.terminal .plain ⟨8, 11⟩ (.literal " ")], ⟨0, 11⟩⟩], by decide⟩
  have hcompile : compile "ROOT := ' '" = .ok (ofRules rules) := by decide +kernel
  have hlexemes : (ofRules rules).lexer.lexemes " ".toList = [⟨.space, [' '], false⟩] := by
    have hscan : (ofRules rules).lexer.scan ' ' [] = .single .space [' '] [] := rfl
    rw [show " ".toList = [' '] from rfl, Lexer.lexemes_cons, hscan]
    exact congrArg (_ :: ·) (Lexer.lexemes_nil _)
  refine ⟨ofRules rules, hcompile, by decide, ?_, fun input adjacent reader hstream =>
    Terminal.matchAt_of_isShadowed rfl (by decide) adjacent hstream⟩
  unfold Lexer.tokenize
  rw [hlexemes]
  rfl

end Grammar

end TokenGrammar
