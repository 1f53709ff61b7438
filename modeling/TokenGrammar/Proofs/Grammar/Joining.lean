/-
  TokenGrammar.Proofs.Grammar.Joining

  Two sources joined by a line feed.  The tokens of the second one stand further on in the
  joined source, and are otherwise what they are by themselves (`Grammar.toList_joined`).
  The rules of the first one are complete where the line ends, as they are at its own end
  (`Draft.Completes.of_joinsOn`).  So they are followed by those of the second source
  (`Grammar.joins_of_disjoint`), or the first of these whose name is taken stops the reading
  (`Grammar.isClash_of_common`).

  Main statement: `Grammar.compile_joined`.
-/

import TokenGrammar.Proofs.Grammar.Relexing
import TokenGrammar.Proofs.Grammar.Shifting
import TokenGrammar.Proofs.Grammar.Soundness
import TokenGrammar.Proofs.Grammar.SourceLines
import TokenGrammar.Proofs.Lexer.WordOrder

namespace TokenGrammar

-- ============================================================================
-- Sorted words
-- ============================================================================

/-- The words of two lists are those of the lists that they are sorted into. -/
theorem sortLongestFirst_filter_append (p : String → Bool) (words others : List String) :
    sortLongestFirst ((words ++ others).filter p) =
      sortLongestFirst (sortLongestFirst (words.filter p) ++ sortLongestFirst (others.filter p)) := by
  refine sortLongestFirst_eq_of_mem_iff fun word hne => ?_
  rw [List.filter_append, List.mem_append, List.mem_append, mem_sortLongestFirst,
    mem_sortLongestFirst, hne]
  simp

-- ============================================================================
-- Places further on
-- ============================================================================

namespace Cursor

/-- The place as many bytes and lines further on. -/
def shifted (bytes lines : Nat) (cursor : Cursor) : Cursor :=
  { cursor with offset := cursor.offset + bytes, line := cursor.line + lines }

variable (bytes lines : Nat) (cursor : Cursor)

theorem token_shifted (lexeme : Lexeme) :
    (cursor.shifted bytes lines).token lexeme = (cursor.token lexeme).shifted bytes lines := by
  unfold token Token.shifted Span.shifted shifted
  rw [Nat.add_right_comm]

theorem after_shifted (lexeme : Lexeme) :
    (cursor.shifted bytes lines).after lexeme = (cursor.after lexeme).shifted bytes lines := by
  unfold after shifted
  dsimp only
  rw [Nat.add_right_comm]
  split
  · rw [Nat.add_right_comm cursor.line]
  · rfl

theorem place_shifted (lexemes : List Lexeme) :
    (cursor.shifted bytes lines).place lexemes =
      (cursor.place lexemes).map (Token.shifted bytes lines) := by
  induction lexemes generalizing cursor with
  | nil => rfl
  | cons lexeme rest ih => rw [place, place, token_shifted, after_shifted, ih, List.map_cons]

theorem afterAll_shifted (lexemes : List Lexeme) :
    (cursor.shifted bytes lines).afterAll lexemes =
      (cursor.afterAll lexemes).shifted bytes lines := by
  induction lexemes generalizing cursor with
  | nil => rfl
  | cons lexeme rest ih =>
      show ((cursor.shifted bytes lines).after lexeme).afterAll rest = _
      rw [after_shifted, ih]
      rfl

end Cursor

-- ============================================================================
-- Lines of tokens
-- ============================================================================

namespace Cursor

theorem placeAll_shifted (bytes lines : Nat) (cursor : Cursor) (lexemes : List Lexeme) :
    (cursor.shifted bytes lines).placeAll lexemes =
      (cursor.placeAll lexemes).map (Token.shifted bytes lines) := by
  rw [placeAll, placeAll, place_shifted, afterAll_shifted, List.map_append]
  rfl

variable {cursor : Cursor} {lexemes : List Lexeme}

/-- Tokens that begin at the same place are on the same line. -/
theorem line_eq_of_mem_placeAll (hne : ∀ lexeme ∈ lexemes, lexeme.text ≠ []) {token other : Token}
    (h : token ∈ cursor.placeAll lexemes) (hother : other ∈ cursor.placeAll lexemes)
    (hstart : token.span.start = other.span.start) : token.line = other.line := by
  induction lexemes generalizing cursor with
  | nil => rw [List.mem_singleton.1 h, List.mem_singleton.1 hother]
  | cons lexeme rest ih =>
      have hfirst : ∀ {later : Token}, later ∈ cursor.placeAll (lexeme :: rest) →
          later.span.start = cursor.offset → later.line = cursor.line :=
        fun hlater => (le_start_of_mem_placeAll hne hlater).2
      rcases List.mem_cons.1 h with rfl | hlater
      · exact (hfirst hother hstart.symm).symm
      · rcases List.mem_cons.1 hother with rfl | hlater'
        · exact hfirst h hstart
        · exact ih (List.forall_mem_cons.1 hne).2 hlater hlater'

end Cursor

/-- The line that is looked up is that of any token that begins there. -/
theorem Lexer.lineAt_tokenize (lexer : Lexer) (text : String) {token : Token}
    (h : token ∈ (lexer.tokenize text).toList) :
    Draft.lineAt (lexer.tokenize text).toList token.span.start = token.line := by
  have hne : ∀ lexeme ∈ lexer.lexemes text.toList, lexeme.text ≠ [] :=
    fun _ => ne_nil_of_mem_lexemes
  have hline : ∀ token ∈ (lexer.tokenize text).toList, ∀ other ∈ (lexer.tokenize text).toList,
      token.span.start = other.span.start → token.line = other.line := by
    intro token htoken other hother hstart
    rw [toList_tokenize] at htoken hother
    rcases List.mem_cons.1 htoken with rfl | htoken
    · rcases List.mem_cons.1 hother with rfl | hother
      · rfl
      · exact ((Cursor.le_start_of_mem_placeAll hne hother).2 hstart.symm).symm
    · rcases List.mem_cons.1 hother with rfl | hother
      · exact (Cursor.le_start_of_mem_placeAll hne htoken).2 hstart
      · exact Cursor.line_eq_of_mem_placeAll hne htoken hother hstart
  unfold Draft.lineAt
  cases hfind : (lexer.tokenize text).toList.find? (·.span.start == token.span.start) with
  | none => exact absurd (beq_self_eq_true _) (List.find?_eq_none.1 hfind token h)
  | some found =>
    have hstart := List.find?_some hfind
    exact hline found (List.mem_of_find?_eq_some hfind) token h (beq_iff_eq.1 hstart)

-- ============================================================================
-- The tokens of joined sources
-- ============================================================================

namespace Grammar

/-- Two sources with a line feed between them. -/
def joined (source later : String) : String := source ++ "\n" ++ later

theorem toList_joinedText (source later : String) :
    (joined source later).toList = source.toList ++ '\n' :: later.toList := by
  rw [joined, String.toList_append, String.toList_append, List.append_assoc]
  rfl

/-- How far on the second source stands in the joined one. -/
def bytesBefore (source : String) : Nat := source.utf8ByteSize + 1

/-- How many lines in front of it there are. -/
def linesBefore (source : String) : Nat := (sourceLexer.tokenize source).ending.line

section Seam

variable {source : String} {kept : List Lexeme} {line : Lexeme}
  (hjoins : JoinsOn (sourceLexer.lexemes source.toList) kept line)

include hjoins

/-- The second source begins where the first one and the line feed end. -/
theorem after_line (hlexemes : sourceLexer.lexemes (source.toList ++ ['\n']) = kept ++ [line]) :
    (Cursor.beginning.afterAll kept).after line =
      Cursor.beginning.shifted (bytesBefore source) (linesBefore source) := by
  have hbytes : byteLength (kept.flatMap Lexeme.text ++ line.text) = bytesBefore source := by
    have hwhole := sourceLexer.flatMap_lexemes (source.toList ++ ['\n'])
    rw [hlexemes, List.flatMap_append, List.flatMap_singleton] at hwhole
    rw [hwhole, byteLength_append, byteLength_toList]
    rfl
  have hlines : (Cursor.beginning.afterAll kept).line = linesBefore source := by
    show _ = (Cursor.beginning.afterAll (sourceLexer.lexemes source.toList)).line
    generalize sourceLexer.lexemes source.toList = lexemes at hjoins ⊢
    cases hjoins with
    | lineFeed => rfl
    | returnFeed =>
        rw [Cursor.afterAll_append]
        rfl
  unfold Cursor.after Cursor.shifted
  rw [hjoins.endsLine_eq, hlines, Cursor.offset_afterAll, ← hbytes, byteLength_append, Nat.add_assoc]
  congr 1
  exact Nat.add_comm _ _

/-- The tokens of a joined source: those of the first source that stay as they are, a line
    end, and those of the second source further on. -/
theorem toList_joined (later : String)
    (hlexemes : ∀ more, sourceLexer.lexemes (source.toList ++ '\n' :: more) =
      kept ++ line :: sourceLexer.lexemes more) :
    (sourceLexer.tokenize (joined source later)).toList =
      Cursor.beginning.mark .beginning ::
        (Cursor.beginning.place kept ++ (Cursor.beginning.afterAll kept).token line ::
          (Cursor.beginning.placeAll (sourceLexer.lexemes later.toList)).map
            (Token.shifted (bytesBefore source) (linesBefore source))) := by
  have hafter := after_line hjoins (by rw [hlexemes, Lexer.lexemes_nil])
  rw [Lexer.toList_tokenize, toList_joinedText, hlexemes, Cursor.placeAll_append,
    Cursor.placeAll_cons, hafter, Cursor.placeAll_shifted]

end Seam

end Grammar

-- ============================================================================
-- Reading up to the seam
-- ============================================================================

namespace Draft

variable {draft later middle : Draft} {token : Token} {rules : RuleTable}

/-- Blanks lead nowhere, and stand in no literal. -/
theorem Reads.eq_of_space (h : Reads draft token later) (hcls : token.cls = .space) :
    later = draft := by
  have hskip : token.isSkippable false = true := by rw [Token.isSkippable, hcls]
  by_cases hbetween : draft.place.BetweenItems
  · exact h.unique (.skip (Place.mayStepOver_iff.2 ⟨hbetween, .inl hskip⟩))
  · obtain ⟨rules, place⟩ := draft
    cases place with
    | afterQuote =>
        have hcomment := h.payload_eq.1
        rw [hcls] at hcomment
        cases hcomment
    | afterPayload =>
        have hquote := (Token.isSymbol_iff.1 h.endLiteral_eq.1).1
        rw [hcls] at hquote
        cases hquote
    | _ => exact absurd trivial hbetween

/-- Where a source may end, so may a line. -/
theorem Reads.line_of_ending {ending : Token} (h : Reads draft ending ⟨rules, .betweenRules⟩)
    (hending : ending.cls = .ending) (hcls : token.cls = .line) :
    Reads draft token ⟨rules, .betweenRules⟩ := by
  cases h with
  | skip h =>
      rw [Place.mayStepOver_eq_false _ (by rw [hending]; decide)] at h
      cases h
  | stop => exact .skip (Place.mayStepOver_line hcls)
  | endRule halternations _ helements hlater =>
      exact .endRule halternations (.inl hcls) helements hlater

/-- The tokens of a source complete the same rules if a line end stands behind them. -/
theorem Completes.of_joinsOn {cursor : Cursor} {lexemes kept : List Lexeme} {line : Lexeme}
    (hjoins : JoinsOn lexemes kept line) (h : draft.Completes (cursor.placeAll lexemes) rules) :
    draft.Completes (cursor.place kept ++ [(cursor.afterAll kept).token line]) rules := by
  cases hjoins with
  | lineFeed =>
      obtain ⟨middle, hkept, _, hending, rfl⟩ := runs_append_iff.1 h
      exact hkept.append (hending.line_of_ending rfl rfl).runs
  | returnFeed =>
      -- By itself the carriage return is a blank, so the source ends where it begins.
      rw [Cursor.placeAll_append] at h
      obtain ⟨middle, hkept, next, hspace, _, hending, rfl⟩ := runs_append_iff.1 h
      rw [hspace.eq_of_space rfl] at hending
      exact hkept.append (hending.line_of_ending rfl rfl).runs

/-- No token that is read is a backslash by itself. -/
theorem Runs.not_backslash {tokens rest : List Token} (h : draft.Runs rest later)
    (hknown : draft.Known tokens) (hmem : ∀ token ∈ rest, token ∈ tokens) :
    ∀ token ∈ rest, token.isSymbol "\\" = false := by
  induction rest generalizing draft with
  | nil => exact fun _ hmem => nomatch hmem
  | cons token rest ih =>
      obtain ⟨middle, hreads, hrest⟩ := h
      obtain ⟨htoken, hmem⟩ := List.forall_mem_cons.1 hmem
      exact List.forall_mem_cons.2
        ⟨hreads.not_backslash hknown, ih hrest (hreads.known hknown htoken) hmem⟩

/-- What has been read does not matter for reading the rest. -/
theorem readAll_append_of_runs {tokens first second : List Token} (h : draft.Runs first middle) :
    draft.readAll tokens (first ++ second) = middle.readAll tokens second := by
  rw [readAll, List.foldlM_append]
  show draft.readAll tokens first >>= _ = _
  rw [runs_iff_readAll.1 h]
  rfl

end Draft

namespace Grammar

/-- A grammar is that of its rules, and the tokens of its source complete them. -/
theorem completes_of_compile {source : String} {grammar : Grammar}
    (h : compile source = .ok grammar) :
    grammar = ofRules grammar.rules ∧
      Draft.blank.Completes (Cursor.beginning.placeAll (sourceLexer.lexemes source.toList))
        grammar.rules := by
  obtain ⟨table, htable, rfl⟩ := compile_eq_ok_iff_ofTokens.1 h
  have hcompletes := (RuleTable.ofTokens_eq_ok_iff rfl).1 htable
  rw [Lexer.toList_tokenize, Draft.completes_skip rfl] at hcompletes
  exact ⟨rfl, hcompletes⟩

/-- In the source of a grammar no lexeme is a backslash by itself. -/
theorem backslash_notMem_lexemes {source : String} {grammar : Grammar}
    (h : compile source = .ok grammar) :
    ⟨.symbol, ['\\'], false⟩ ∉ sourceLexer.lexemes source.toList := by
  intro hmem
  have hnot := (completes_of_compile h).2.not_backslash (Draft.known_blank _) fun _ => id
  obtain ⟨before, behind, hsplit⟩ := List.append_of_mem hmem
  rw [hsplit, Cursor.placeAll_append, Cursor.placeAll_cons] at hnot
  have hfalse := hnot _ (List.mem_append_right _ List.mem_cons_self)
  exact absurd (Token.isSymbol_iff.2 ⟨rfl, rfl⟩) (Bool.eq_false_iff.1 hfalse)

/-- The source of a grammar in front of another source: some tokens complete the rules of
    the grammar, then come those of the other source, further on. -/
theorem exists_seam {source : String} {grammar : Grammar} (h : compile source = .ok grammar) :
    ∃ seen : List Token, Draft.blank.Completes seen grammar.rules ∧
      (∀ name ∈ seen, name.cls = .identifier → name ∈ (sourceLexer.tokenize source).toList) ∧
      ∀ later, (sourceLexer.tokenize (joined source later)).toList =
        seen ++ (Cursor.beginning.placeAll (sourceLexer.lexemes later.toList)).map
          (Token.shifted (bytesBefore source) (linesBefore source)) := by
  obtain ⟨kept, line, hjoins, hlexemes⟩ :=
    lexemes_append_lineFeed source.toList (backslash_notMem_lexemes h)
  refine ⟨Cursor.beginning.mark .beginning ::
    (Cursor.beginning.place kept ++ [(Cursor.beginning.afterAll kept).token line]),
    ⟨_, .skip rfl, (completes_of_compile h).2.of_joinsOn hjoins⟩, fun name hname hcls => ?_,
    fun later => ?_⟩
  · rw [Lexer.toList_tokenize]
    rcases List.mem_cons.1 hname with rfl | hname
    · exact List.mem_cons_self
    rcases List.mem_append.1 hname with hname | hname
    · obtain ⟨more, hmore⟩ := hjoins.exists_append
      rw [hmore, Cursor.placeAll_append]
      exact List.mem_cons_of_mem _ (List.mem_append_left _ hname)
    · obtain rfl := List.mem_singleton.1 hname
      exact nomatch hjoins.cls_eq.symm.trans hcls
  · rw [toList_joined hjoins later hlexemes, List.cons_append, List.append_assoc]
    rfl

/-- The grammar of a source of which some tokens have been read. -/
theorem compile_of_toList {source : String} {seen rest : List Token} {table : RuleTable}
    (hseen : Draft.blank.Completes seen table)
    (htokens : (sourceLexer.tokenize source).toList = seen ++ rest) :
    compile source = ((Draft.readAll (sourceLexer.tokenize source).toList
      ⟨table, .betweenRules⟩ rest).map Draft.rules).map ofRules := by
  rw [← Draft.readAll_append_of_runs hseen, ← htokens]
  rfl

end Grammar

-- ============================================================================
-- Rules and words of both
-- ============================================================================

theorem Rule.literals_shifted (bytes : Nat) (rule : Rule) :
    (rule.shifted bytes).literals = rule.literals := by
  rw [literals, literals, ← pieces_forgetSpans, forgetSpans_shifted, pieces_forgetSpans]

namespace RuleTable

variable {table earlier later : RuleTable} {bytes : Nat}
  (h : table.rules = earlier.rules ++ later.rules.map (Rule.shifted bytes))

include h

theorem literals_append : table.literals = earlier.literals ++ later.literals := by
  rw [table.literals_eq, earlier.literals_eq, later.literals_eq, h, List.flatMap_append,
    List.flatMap_map]
  congr 2
  funext rule
  rw [rule.literals_shifted]

theorem find?_append (name : String) :
    table.find? name = (earlier.find? name).or ((later.find? name).map (Rule.shifted bytes)) := by
  rw [find?, h, List.find?_append, List.find?_map]
  rfl

/-- But for the places, a name stands for what it stands for in one of the tables. -/
theorem nodes?_append (name : String) :
    (table.nodes? name).map (·.map Node.forgetSpans) =
      ((earlier.nodes? name).map (·.map Node.forgetSpans)).or
        ((later.nodes? name).map (·.map Node.forgetSpans)) := by
  have hshifted : ∀ rule : Rule,
      (rule.shifted bytes).nodes.map Node.forgetSpans = rule.nodes.map Node.forgetSpans :=
    fun rule => congrArg Rule.nodes (rule.forgetSpans_shifted bytes)
  rw [nodes?, find?_append h, nodes?, nodes?]
  cases earlier.find? name with
  | some rule => rfl
  | none =>
    cases later.find? name with
    | none => rfl
    | some rule => exact congrArg some (hshifted rule)

end RuleTable

namespace Grammar

/-- A grammar of the rules of one grammar and then those of another, as many bytes further
    on, and of the words of both. -/
structure Joins (grammar first second : Grammar) (bytes : Nat) : Prop where
  rules_eq : grammar.rules.rules =
    first.rules.rules ++ second.rules.rules.map (Rule.shifted bytes)
  symbols_eq : grammar.symbols = sortLongestFirst (first.symbols ++ second.symbols)
  keywords_eq : grammar.keywords = sortLongestFirst (first.keywords ++ second.keywords)

/-- Whether two grammars differ at most in the order of their rules and in places. -/
structure SameButOrder (grammar again : Grammar) : Prop where
  rules : (again.rules.rules.map Rule.forgetSpans).Perm
    (grammar.rules.rules.map Rule.forgetSpans)
  symbols_eq : again.symbols = grammar.symbols
  keywords_eq : again.keywords = grammar.keywords
  nodes : ∀ name, (again.rules.nodes? name).map (·.map Node.forgetSpans) =
    (grammar.rules.nodes? name).map (·.map Node.forgetSpans)

theorem joins_of_rules {table earlier later : RuleTable} {bytes : Nat}
    (h : table.rules = earlier.rules ++ later.rules.map (Rule.shifted bytes)) :
    (ofRules table).Joins (ofRules earlier) (ofRules later) bytes where
  rules_eq := h
  symbols_eq := by
    show symbolicWords table.literals = _
    rw [RuleTable.literals_append h]
    exact sortLongestFirst_filter_append _ _ _
  keywords_eq := by
    show keywordWords table.literals = _
    rw [RuleTable.literals_append h]
    exact sortLongestFirst_filter_append _ _ _

theorem sortLongestFirst_append_comm (words others : List String) :
    sortLongestFirst (words ++ others) = sortLongestFirst (others ++ words) := by
  refine sortLongestFirst_eq_of_mem_iff fun word _ => ?_
  rw [List.mem_append, List.mem_append, or_comm]

/-- Grammars without names in common can be joined in either order. -/
theorem Joins.swap {grammar swapped first second : Grammar} {bytes bytes' : Nat}
    (h : grammar.Joins first second bytes) (h' : swapped.Joins second first bytes')
    (hfree : ∀ name ∈ first.rules.names, name ∉ second.rules.names) :
    grammar.SameButOrder swapped where
  rules := by
    have hshifted : ∀ bytes (rules : List Rule),
        (rules.map (Rule.shifted bytes)).map Rule.forgetSpans = rules.map Rule.forgetSpans := by
      intro bytes rules
      rw [List.map_map]
      exact List.map_congr_left fun rule _ => rule.forgetSpans_shifted bytes
    rw [h.rules_eq, h'.rules_eq, List.map_append, List.map_append, hshifted, hshifted]
    exact List.perm_append_comm
  symbols_eq := by rw [h.symbols_eq, h'.symbols_eq, sortLongestFirst_append_comm]
  keywords_eq := by rw [h.keywords_eq, h'.keywords_eq, sortLongestFirst_append_comm]
  nodes := by
    intro name
    rw [RuleTable.nodes?_append h.rules_eq, RuleTable.nodes?_append h'.rules_eq,
      RuleTable.nodes?, RuleTable.nodes?]
    cases hfirst : first.rules.find? name with
    | none => rw [Option.map_none, Option.map_none, Option.none_or, Option.or_none]
    | some rule =>
      cases hsecond : second.rules.find? name with
      | none => rw [Option.map_none, Option.map_none, Option.none_or, Option.or_none]
      | some other =>
        exact absurd (RuleTable.mem_names_of_find? hsecond)
          (hfree name (RuleTable.mem_names_of_find? hfirst))

-- ============================================================================
-- Joined sources
-- ============================================================================

/-- What is wrong with a source behind another one if both define a name: the first of its
    rules whose name is taken, at that name, and on which line the other one defines it. -/
def IsClash (source later : String) (first second : Grammar) (error : GrammarError) : Prop :=
  ∃ rule original definition name,
    second.rules.rules.find? (fun rule => first.rules.contains rule.name) = some rule ∧
    first.rules.find? rule.name = some original ∧
    definition ∈ (sourceLexer.tokenize source).toList ∧ definition.Names original ∧
    name ∈ (sourceLexer.tokenize later).toList ∧ name.Names rule ∧
    error = ⟨.redefinition rule.name definition.line,
      name.shifted (bytesBefore source) (linesBefore source)⟩

section Joined

variable {source later : String} {first second : Grammar} (hfirst : compile source = .ok first)
  (hsecond : compile later = .ok second)

include hfirst hsecond

/-- Without names in common the rules of the second source follow those of the first one. -/
theorem joins_of_disjoint (hfree : ∀ name ∈ first.rules.names, name ∉ second.rules.names) :
    ∃ grammar, compile (joined source later) = .ok grammar ∧
      grammar.Joins first second (bytesBefore source) := by
  obtain ⟨seen, hseen, -, htokens⟩ := exists_seam hfirst
  obtain ⟨hfirst, -⟩ := completes_of_compile hfirst
  obtain ⟨hsecond, hcompletes⟩ := completes_of_compile hsecond
  have hnew : ∀ rule ∈ second.rules.rules, rule.name ∉ first.rules.names :=
    fun rule hrule hname => hfree rule.name hname (List.mem_map_of_mem hrule)
  obtain ⟨after, hruns, hafter⟩ :=
    hcompletes.shifted (Draft.follows_blank first.rules (bytesBefore source) (linesBefore source))
      hnew
  refine ⟨ofRules after.rules, ?_, ?_⟩
  · rw [compile_of_toList hseen (htokens later), Draft.runs_iff_readAll.1 hruns]
    rfl
  · rw [hfirst, hsecond]
    exact joins_of_rules hafter.rules_eq

/-- The first rule of the second source whose name is taken is an error. -/
theorem isClash_of_common {name : String} (hname : name ∈ first.rules.names)
    (hname' : name ∈ second.rules.names) :
    ∃ error, compile (joined source later) = .error error ∧
      IsClash source later first second error := by
  obtain ⟨seen, hseen, hnames, htokens⟩ := exists_seam hfirst
  obtain ⟨rule, hrule⟩ : ∃ rule,
      second.rules.rules.find? (fun rule => first.rules.contains rule.name) = some rule := by
    obtain ⟨rule, hmem, rfl⟩ := List.mem_map.1 hname'
    exact Option.isSome_iff_exists.1
      (List.find?_isSome.2 ⟨rule, hmem, RuleTable.contains_iff.2 hname⟩)
  have htaken := List.find?_some hrule
  obtain ⟨original, horiginal⟩ : ∃ original, first.rules.find? rule.name = some original :=
    Option.isSome_iff_exists.1 (List.find?_isSome.2 (List.any_eq_true.1 htaken))
  obtain ⟨definition, hdefinition, hdefines⟩ :=
    (hseen.known (Draft.known_blank seen) fun _ => id).names original
      (List.mem_of_find?_eq_some horiginal)
  obtain ⟨token, htoken, hnamed, herror⟩ :=
    (completes_of_compile hsecond).2.clash (Draft.follows_blank _ _ _)
      (Draft.known_blank (sourceLexer.tokenize later).toList) (fun _ => List.mem_cons_of_mem _)
      hrule horiginal
  refine ⟨_, ?_, rule, original, definition, token, hrule, horiginal,
    hnames definition hdefinition hdefines.cls_eq, hdefines, htoken, hnamed, rfl⟩
  -- The line is looked up in the joined source, where the definition stands as it did.
  have hline : Draft.lineAt (sourceLexer.tokenize (joined source later)).toList
      original.span.start = definition.line := by
    rw [← hdefines.start_eq]
    refine Lexer.lineAt_tokenize _ _ ?_
    rw [htokens]
    exact List.mem_append_left _ hdefinition
  rw [compile_of_toList hseen (htokens later), herror, hline]
  rfl

end Joined

/-- Sources that compile, joined by a line feed: they compile if and only if no name is
    defined in both, to the rules of the first and then those of the second, and in either
    order to grammars that differ in order and places only.  Otherwise the error is the
    first rule of the second source whose name is taken. -/
theorem compile_joined (source later : String) (first second : Grammar)
    (hfirst : compile source = .ok first) (hsecond : compile later = .ok second) :
    ((∃ grammar, compile (joined source later) = .ok grammar) ↔
      ∀ name ∈ first.rules.names, name ∉ second.rules.names) ∧
    (∀ grammar, compile (joined source later) = .ok grammar →
      grammar.Joins first second (bytesBefore source) ∧
      ∃ swapped, compile (joined later source) = .ok swapped ∧ grammar.SameButOrder swapped) ∧
    ∀ error, compile (joined source later) = .error error →
      IsClash source later first second error := by
  have hfree : ∀ grammar, compile (joined source later) = .ok grammar →
      ∀ name ∈ first.rules.names, name ∉ second.rules.names := by
    intro grammar hgrammar name hname hname'
    obtain ⟨error, herror, -⟩ := isClash_of_common hfirst hsecond hname hname'
    exact nomatch hgrammar.symm.trans herror
  refine ⟨⟨fun ⟨grammar, hgrammar⟩ => hfree grammar hgrammar, fun hfree => ?_⟩,
    fun grammar hgrammar => ?_, fun error herror => ?_⟩
  · obtain ⟨grammar, hgrammar, -⟩ := joins_of_disjoint hfirst hsecond hfree
    exact ⟨grammar, hgrammar⟩
  · have hfree := hfree grammar hgrammar
    obtain ⟨again, hagain, hjoins⟩ := joins_of_disjoint hfirst hsecond hfree
    obtain rfl := Except.ok.inj (hagain.symm.trans hgrammar)
    obtain ⟨swapped, hswapped, hjoins'⟩ :=
      joins_of_disjoint hsecond hfirst fun name hname hname' => hfree name hname' hname
    exact ⟨hjoins, swapped, hswapped, hjoins.swap hjoins' hfree⟩
  · by_cases hfree : ∀ name ∈ first.rules.names, name ∉ second.rules.names
    · obtain ⟨grammar, hgrammar, -⟩ := joins_of_disjoint hfirst hsecond hfree
      exact nomatch hgrammar.symm.trans herror
    · push Not at hfree
      obtain ⟨name, hname, hname'⟩ := hfree
      obtain ⟨found, hfound, hclash⟩ := isClash_of_common hfirst hsecond hname hname'
      obtain rfl := Except.error.inj (hfound.symm.trans herror)
      exact hclash

/-- Neither a backslash that ends a comment nor a carriage return that ends a source reaches
    into the source behind it; a source behind itself defines a name twice. -/
theorem compile_joined_behind_comment :
    ∃ first second grammar swapped error,
      compile "set := '=' # \\" = .ok first ∧ compile "same := '=='\r" = .ok second ∧
      compile "set := '=' # \\\nsame := '=='\r" = .ok grammar ∧
      grammar.Joins first second 15 ∧ grammar.symbols = ["==", "="] ∧
      compile "same := '=='\r\nset := '=' # \\" = .ok swapped ∧
      grammar.SameButOrder swapped ∧
      compile "set := '=' # \\\nset := '=' # \\" = .error error ∧
      IsClash "set := '=' # \\" "set := '=' # \\" first first error := by
  obtain ⟨first, hfirst, hnames, hsymbols⟩ : ∃ first, compile "set := '=' # \\" = .ok first ∧
      first.rules.names = ["set"] ∧ first.symbols = ["="] :=
    ⟨.ofRules ⟨[⟨"set", [.terminal .plain ⟨7, 10⟩ (.literal "=")], ⟨0, 10⟩⟩], by decide⟩,
      by decide +kernel, rfl, by decide⟩
  obtain ⟨second, hsecond, hnames', hsymbols'⟩ : ∃ second, compile "same := '=='\r" = .ok second ∧
      second.rules.names = ["same"] ∧ second.symbols = ["=="] :=
    ⟨.ofRules ⟨[⟨"same", [.terminal .plain ⟨8, 12⟩ (.literal "==")], ⟨0, 12⟩⟩], by decide⟩,
      by decide +kernel, rfl, by decide⟩
  obtain ⟨hiff, hjoins, -⟩ := compile_joined _ _ first second hfirst hsecond
  obtain ⟨hiff', -, hclash⟩ := compile_joined _ _ first first hfirst hfirst
  obtain ⟨grammar, hgrammar⟩ := hiff.2 (by rw [hnames, hnames']; decide)
  obtain ⟨hboth, swapped, hswapped, hsame⟩ := hjoins grammar hgrammar
  have hsymbolsOfBoth : grammar.symbols = ["==", "="] := by
    rw [hboth.symbols_eq, hsymbols, hsymbols']
    decide
  cases htwice : compile "set := '=' # \\\nset := '=' # \\" with
  | ok twice => exact absurd (hiff'.1 ⟨twice, htwice⟩) (by rw [hnames]; decide)
  | error error =>
    exact ⟨first, second, grammar, swapped, error, hfirst, hsecond, hgrammar, hboth,
      hsymbolsOfBoth, hswapped, hsame, rfl, hclash error htwice⟩

end Grammar

end TokenGrammar
