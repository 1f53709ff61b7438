/-
  TokenGrammar.Proofs.Grammar.Offenders

  What is wrong with a source, and where.  Everything that reading a token can fail with is
  said once (`Draft.Fails`).  The token that an error points to is the one that is read, or
  one that the place where reading stands has kept (`Draft.Fails.offender_mem`), so it is a
  token of the source.  A draft is all that is known about the tokens before it, and of the
  tokens of the whole source an error tells only the line of an earlier rule.  So an error
  stays when the source goes on, if its end is not what shows the error.

  Main statement: `Grammar.errors_are_located_and_stay`.
-/

import TokenGrammar.Proofs.Grammar.SourceLines
import TokenGrammar.Proofs.Grammar.WholeWords
import TokenGrammar.Proofs.Lexer.Locality

namespace TokenGrammar

-- ============================================================================
-- What reading fails with
-- ============================================================================

namespace Draft

/-- What reading a token fails with. -/
inductive Fails (tokens : List Token) : Draft → Token → GrammarError → Prop where
  | expectedRuleName {rules : RuleTable} {token : Token} :
      Fails tokens ⟨rules, .betweenRules⟩ token ⟨.expectedRuleName, token⟩
  | expectedDefine {rules : RuleTable} {name token : Token} :
      Fails tokens ⟨rules, .afterName name⟩ token ⟨.expectedDefine name.text, token⟩
  | emptyRule {rules : RuleTable} {rule : OpenRule} {token : Token}
      (halternations : rule.alternations = []) (hcls : token.cls = .line ∨ token.cls = .ending)
      (helements : rule.elements = []) :
      Fails tokens ⟨rules, .inSequence rule⟩ token ⟨.emptyRule rule.name.text, rule.define⟩
  | redefinition {rules : RuleTable} {rule : OpenRule} {token : Token} {original : Rule}
      (halternations : rule.alternations = []) (hcls : token.cls = .line ∨ token.cls = .ending)
      (horiginal : rules.find? rule.name.text = some original) :
      Fails tokens ⟨rules, .inSequence rule⟩ token
        ⟨.redefinition rule.name.text (lineAt tokens original.span.start), rule.name⟩
  | emptyBranch {rules : RuleTable} {rule : OpenRule} {alternation : OpenAlternation}
      {outer : List OpenAlternation} {token : Token}
      (halternations : rule.alternations = alternation :: outer) (helements : rule.elements = [])
      (h : token.isSymbol "|" = true ∨ token.isSymbol "]" = true) :
      Fails tokens ⟨rules, .inSequence rule⟩ token
        ⟨.emptyBranch alternation.branches.length, token⟩
  | unclosedAlternation {rules : RuleTable} {rule : OpenRule} {token : Token}
      (halternations : rule.alternations ≠ []) (hcls : token.cls = .ending) :
      Fails tokens ⟨rules, .inSequence rule⟩ token ⟨.unclosedAlternation, token⟩
  | duplicateModifier {rules : RuleTable} {rule : OpenRule} {token : Token} {node : Node}
      {before : List Node} {suffix : Suffix} (helements : rule.elements = node :: before)
      (h : Suffix.ofToken? token = some suffix) (hnode : node.hasSuffix suffix = .ok true) :
      Fails tokens ⟨rules, .inSequence rule⟩ token ⟨.duplicateModifier suffix.sign, token⟩
  | onceEachOutsideAlternation {rules : RuleTable} {rule : OpenRule} {token : Token} {node : Node}
      {before : List Node} (helements : rule.elements = node :: before)
      (h : Suffix.ofToken? token = some .onceEach)
      (hnode : node.hasSuffix .onceEach = .error .onceEachOutsideAlternation) :
      Fails tokens ⟨rules, .inSequence rule⟩ token ⟨.onceEachOutsideAlternation, token⟩
  | unexpectedToken {rules : RuleTable} {place : Place} {token : Token} {rule : OpenRule}
      {opening : Opening} (hplace : place.Expects token.span.start rule opening) :
      Fails tokens ⟨rules, place⟩ token ⟨.unexpectedToken, token⟩
  | emptyLiteral {rules : RuleTable} {rule : OpenRule} {opening : Opening} {quote token : Token}
      (h : token.isSymbol quote.text = true) :
      Fails tokens ⟨rules, .afterQuote rule opening quote⟩ token ⟨.emptyLiteral, token⟩
  | noPayload {rules : RuleTable} {rule : OpenRule} {opening : Opening} {quote token : Token}
      (h : token.isSymbol quote.text = false) (hcls : token.cls ≠ .comment) :
      Fails tokens ⟨rules, .afterQuote rule opening quote⟩ token
        ⟨.unterminatedLiteral ((openingQuote? quote).getD '"'), quote⟩
  | noClosingQuote {rules : RuleTable} {rule : OpenRule} {opening : Opening}
      {quote payload token : Token} (h : token.isSymbol quote.text = false) :
      Fails tokens ⟨rules, .afterPayload rule opening quote payload⟩ token
        ⟨.unterminatedLiteral ((openingQuote? quote).getD '"'), quote⟩

variable {tokens : List Token} {draft : Draft} {token : Token} {error : GrammarError}
  {rules : RuleTable} {place : Place} {rule : OpenRule} {opening : Opening}

theorem map_mk_eq_error {result : Except GrammarError Place}
    (h : result.map (Draft.mk rules) = .error error) : result = .error error := by
  cases result with
  | error found => exact congrArg Except.error (Except.error.inj h)
  | ok place => cases h

theorem fails_of_readElement (hplace : place.Expects token.span.start rule opening)
    (h : Place.readElement rule opening token = .error error) :
    Fails tokens ⟨rules, place⟩ token error := by
  unfold Place.readElement at h
  split at h
  · cases h
  · split at h
    · cases h
    · dsimp only at h
      split at h
      · split at h
        · cases h
        · cases h
          exact .unexpectedToken hplace
      · cases h
      · cases h
        exact .unexpectedToken hplace

theorem fails_of_addSuffix {node : Node} {before : List Node} {suffix : Suffix}
    (helements : rule.elements = node :: before) (hsuffix : Suffix.ofToken? token = some suffix)
    (h : node.addSuffix suffix token = .error error) :
    Fails tokens ⟨rules, .inSequence rule⟩ token error := by
  unfold Node.addSuffix at h
  split at h
  · next fault hnode =>
    cases h
    cases suffix with
    | onceEach =>
        cases node with
        | alternation => cases hnode
        | terminal =>
            cases hnode
            exact .onceEachOutsideAlternation helements hsuffix rfl
        | ref =>
            cases hnode
            exact .onceEachOutsideAlternation helements hsuffix rfl
    | optional => cases hnode
    | repeated => cases hnode
    | fatal => cases hnode
  · next hnode =>
    cases h
    exact .duplicateModifier helements hsuffix hnode
  · cases h

theorem fails_of_continueSequence (h : Place.continueSequence rule token = .error error) :
    Fails tokens ⟨rules, .inSequence rule⟩ token error := by
  unfold Place.continueSequence at h
  split at h
  · next node before suffix helements hsuffix =>
    cases hnode : node.addSuffix suffix token with
    | error found =>
        rw [hnode] at h
        cases h
        exact fails_of_addSuffix helements hsuffix hnode
    | ok node' =>
        rw [hnode] at h
        cases h
  · unfold Place.beginElement at h
    split at h
    · cases h
    · exact fails_of_readElement (.here rule token.span.start) h

theorem insert_eq_error {completed : Rule} {id : RuleId} (h : rules.insert completed = .error id) :
    ∃ original, rules.rule? id = some original ∧ rules.find? completed.name = some original := by
  unfold RuleTable.insert at h
  split at h
  · next found hfound =>
    cases h
    have hname : completed.name ∈ rules.names := by
      by_contra hfree
      rw [RuleTable.id?_eq_none_iff.2 hfree] at hfound
      cases hfound
    obtain ⟨taken, htaken, hsame⟩ := List.mem_map.1 hname
    have hsome : (rules.find? completed.name).isSome = true :=
      List.find?_isSome.2 ⟨taken, htaken, beq_iff_eq.2 hsame⟩
    obtain ⟨original, horiginal⟩ := Option.isSome_iff_exists.1 hsome
    exact ⟨original, (RuleTable.rule?_of_id? hfound).trans horiginal, horiginal⟩
  · cases h

theorem fails_of_endRule (halternations : rule.alternations = [])
    (hcls : token.cls = .line ∨ token.cls = .ending)
    (h : endRule tokens ⟨rules, place⟩ rule = .error error) :
    Fails tokens ⟨rules, .inSequence rule⟩ token error := by
  unfold endRule at h
  split at h
  · next helements =>
    cases h
    exact .emptyRule halternations hcls helements
  · dsimp only at h
    split at h
    · cases h
    · next id hinsert =>
      obtain ⟨original, hrule, hfind⟩ := insert_eq_error hinsert
      rw [hrule] at h
      cases h
      exact .redefinition halternations hcls hfind

theorem fails_of_readToken_inSequence
    (h : readToken tokens ⟨rules, .inSequence rule⟩ token = .error error) :
    Fails tokens ⟨rules, .inSequence rule⟩ token error := by
  simp only [readToken] at h
  split at h
  · next halternations =>
    split at h
    · next hcls =>
      rw [Bool.or_eq_true, beq_iff_eq, beq_iff_eq] at hcls
      exact fails_of_endRule halternations hcls h
    · exact fails_of_continueSequence (map_mk_eq_error h)
  · next alternation outer halternations =>
    split at h
    · next hsign =>
      have hbranch := map_mk_eq_error h
      unfold Place.endBranch at hbranch
      split at hbranch
      · next hempty =>
        cases hbranch
        exact .emptyBranch halternations (List.isEmpty_iff.1 hempty) ((Bool.or_eq_true _ _).mp hsign)
      · dsimp only at hbranch
        split at hbranch
        · cases hbranch
        · cases hbranch
    · split at h
      · next hcls =>
        cases h
        exact .unclosedAlternation (by rw [halternations]; exact List.cons_ne_nil _ _) (eq_of_beq hcls)
      · exact fails_of_continueSequence (map_mk_eq_error h)

/-- Reading a token fails with nothing else. -/
theorem fails_of_read (h : read tokens draft token = .error error) :
    Fails tokens draft token error := by
  obtain ⟨rules, place⟩ := draft
  unfold read at h
  split at h
  · cases h
  · cases place with
    | betweenRules =>
        simp only [readToken] at h
        split at h
        · cases h
        · split at h
          · cases h
          · cases h
            exact .expectedRuleName
    | afterName name =>
        simp only [readToken] at h
        split at h
        · cases h
        · cases h
          exact .expectedDefine
    | inSequence rule => exact fails_of_readToken_inSequence h
    | afterTilde rule opening =>
        exact fails_of_readElement (.behindTilde rule opening token.span.start) (map_mk_eq_error h)
    | afterQuote rule opening quote =>
        have hpayload := map_mk_eq_error h
        unfold Place.readPayload at hpayload
        split at hpayload
        · next hclose =>
          cases hpayload
          exact .emptyLiteral hclose
        · next hclose =>
          split at hpayload
          · cases hpayload
          · next hcls =>
            cases hpayload
            exact .noPayload (Bool.eq_false_iff.2 hclose) fun hcomment => hcls (beq_iff_eq.2 hcomment)
    | afterPayload rule opening quote payload =>
        have hclose := map_mk_eq_error h
        unfold Place.closeLiteral at hclose
        split at hclose
        · cases hclose
        · next hquote =>
          cases hclose
          exact .noClosingQuote (Bool.eq_false_iff.2 hquote)

end Draft

-- ============================================================================
-- The tokens that errors point to
-- ============================================================================

/-- The tokens that a place has kept to point to: the name of the rule that is being read,
    its `:=`, and the quote of a literal. -/
def Place.kept : Place → List Token
  | .betweenRules => []
  | .afterName name => [name]
  | .inSequence rule => [rule.name, rule.define]
  | .afterTilde rule _ => [rule.name, rule.define]
  | .afterQuote rule _ quote => [rule.name, rule.define, quote]
  | .afterPayload rule _ quote _ => [rule.name, rule.define, quote]

theorem Place.Expects.kept_eq {place : Place} {start : Nat} {rule : OpenRule} {opening : Opening}
    (h : place.Expects start rule opening) : place.kept = [rule.name, rule.define] := by
  cases h with
  | here => rfl
  | behindTilde => rfl

namespace Draft

variable {tokens others before more rest : List Token} {draft later : Draft} {token : Token}
  {error : GrammarError}

/-- An error points to the token that is read, or to one that has been kept. -/
theorem Fails.offender_mem (h : Fails tokens draft token error) :
    error.offender ∈ token :: draft.place.kept := by
  cases h with
  | emptyRule => simp [Place.kept]
  | redefinition => simp [Place.kept]
  | noPayload => simp [Place.kept]
  | noClosingQuote => simp [Place.kept]
  | _ => exact List.mem_cons_self

/-- No token is kept but those that are read. -/
theorem Reads.kept_subset (h : Reads draft token later) :
    later.place.kept ⊆ token :: draft.place.kept := by
  cases h with
  | skip => exact List.subset_cons_self _ _
  | stop => exact List.subset_cons_self _ _
  | name => exact List.cons_subset_cons _ (List.nil_subset _)
  | define =>
      rintro kept hkept
      simp only [Place.kept, List.mem_cons, List.not_mem_nil, or_false] at hkept ⊢
      exact hkept.symm
  | endRule => exact List.nil_subset _
  | bar => exact List.subset_cons_self _ _
  | close => exact List.subset_cons_self _ _
  | suffix => exact List.subset_cons_self _ _
  | tilde => exact List.subset_cons_self _ _
  | quote hplace =>
      rw [hplace.kept_eq]
      rintro kept hkept
      simp only [Place.kept, List.mem_cons, List.not_mem_nil, or_false] at hkept ⊢
      exact (or_assoc.2 hkept).symm
  | bracket hplace =>
      rw [hplace.kept_eq]
      exact List.subset_cons_self _ _
  | category hplace =>
      rw [hplace.kept_eq]
      exact List.subset_cons_self _ _
  | reference hplace =>
      rw [hplace.kept_eq]
      exact List.subset_cons_self _ _
  | payload => exact List.subset_cons_self _ _
  | endLiteral =>
      rintro kept hkept
      exact List.mem_cons_of_mem _ (List.mem_append_left [_] hkept)

theorem Runs.kept_subset (h : draft.Runs rest later) : later.place.kept ⊆ rest ++ draft.place.kept := by
  induction rest generalizing draft with
  | nil =>
      obtain rfl : draft = later := h
      exact List.Subset.refl _
  | cons token rest ih =>
      obtain ⟨middle, hreads, hrest⟩ := h
      intro kept hkept
      rcases List.mem_append.1 (ih hrest hkept) with hmem | hmem
      · exact List.mem_append_left _ (List.mem_cons_of_mem _ hmem)
      · rcases List.mem_cons.1 (hreads.kept_subset hmem) with rfl | hmem
        · exact List.mem_append_left _ List.mem_cons_self
        · exact List.mem_append_right _ hmem

/-- Reading all of some tokens fails at one of them. -/
theorem readAll_eq_error_iff :
    draft.readAll tokens rest = .error error ↔ ∃ before token after middle,
      rest = before ++ token :: after ∧ draft.Runs before middle ∧
        middle.read tokens token = .error error := by
  induction rest generalizing draft with
  | nil =>
      constructor
      · intro h
        cases h
      · rintro ⟨before, token, after, middle, hsplit, -⟩
        exact absurd hsplit.symm (by simp)
  | cons first rest ih =>
      have hcons : draft.readAll tokens (first :: rest) =
          draft.read tokens first >>= fun middle => middle.readAll tokens rest := rfl
      rw [hcons]
      constructor
      · intro h
        cases hread : draft.read tokens first with
        | error found =>
            rw [hread] at h
            obtain rfl : found = error := Except.error.inj h
            exact ⟨[], first, rest, draft, rfl, rfl, hread⟩
        | ok next =>
            rw [hread] at h
            obtain ⟨before, token, after, middle, rfl, hruns, herror⟩ := ih.1 h
            exact ⟨first :: before, token, after, middle, rfl,
              ⟨next, read_eq_ok_iff.1 hread, hruns⟩, herror⟩
      · rintro ⟨before, token, after, middle, hsplit, hruns, herror⟩
        cases before with
        | nil =>
            obtain ⟨rfl, rfl⟩ := List.cons.inj hsplit
            obtain rfl : draft = middle := hruns
            rw [herror]
            rfl
        | cons _ before =>
            obtain ⟨rfl, rfl⟩ := List.cons.inj hsplit
            obtain ⟨next, hreads, hruns⟩ := hruns
            rw [read_eq_ok_iff.2 hreads]
            exact ih.2 ⟨before, token, after, middle, rfl, hruns, herror⟩

-- ============================================================================
-- What an error depends on
-- ============================================================================

/-- Of the tokens of the whole source only the lines of the rules are ever looked up. -/
theorem read_congr (h : ∀ rule ∈ draft.rules.rules,
      lineAt tokens rule.span.start = lineAt others rule.span.start) :
    draft.read tokens token = draft.read others token := by
  have hendRule (rule : OpenRule) : endRule tokens draft rule = endRule others draft rule := by
    unfold endRule
    split
    · rfl
    · dsimp only
      split
      · rfl
      · next id hinsert =>
        obtain ⟨original, hrule, -⟩ := insert_eq_error hinsert
        rw [hrule]
        have hline := h original (List.mem_of_getElem? hrule)
        simp only [Option.map_some, Option.getD_some, hline]
  unfold read
  split
  · rfl
  · unfold readToken
    simp only [hendRule]

theorem lineAt_append {start : Nat} (h : ∃ token ∈ before, token.span.start = start) :
    lineAt (before ++ more) start = lineAt before start := by
  obtain ⟨token, htoken, hstart⟩ := h
  have hsome : (before.find? (·.span.start == start)).isSome = true :=
    List.find?_isSome.2 ⟨token, htoken, beq_iff_eq.2 hstart⟩
  rw [lineAt, lineAt, List.find?_append, Option.or_of_isSome hsome]

/-- Where the rules of a draft are named by tokens, what comes behind those makes no
    difference to an error. -/
theorem Known.read_append (h : draft.Known before) (more others : List Token) :
    draft.read (before ++ more) token = draft.read (before ++ others) token := by
  refine read_congr fun rule hrule => ?_
  obtain ⟨name, hname, hnames⟩ := h.names rule hrule
  rw [lineAt_append ⟨name, hname, hnames.start_eq⟩, lineAt_append ⟨name, hname, hnames.start_eq⟩]

/-- What fails at the end of the source for another reason than that it ends fails at the
    end of a line as well. -/
theorem read_line_of_read_ending {ending line : Token} (hending : ending.cls = .ending)
    (hline : line.cls = .line) (h : draft.read tokens ending = .error error)
    (hoffender : error.offender ≠ ending) : draft.read tokens line = .error error := by
  have hfails := fails_of_read h
  cases hfails with
  | emptyRule halternations =>
      rw [read_eq_endRule halternations (.inr hending)] at h
      rw [read_eq_endRule halternations (.inl hline)]
      exact h
  | redefinition halternations =>
      rw [read_eq_endRule halternations (.inr hending)] at h
      rw [read_eq_endRule halternations (.inl hline)]
      exact h
  | @noPayload rules rule opening quote =>
      show (Place.readPayload rule opening quote line).map (Draft.mk rules) = _
      rw [Place.readPayload, Token.isSymbol_eq_false_of_cls (by rw [hline]; decide),
        if_neg Bool.false_ne_true, hline]
      rfl
  | @noClosingQuote rules rule opening quote payload =>
      show (Place.closeLiteral rule opening quote payload line).map (Draft.mk rules) = _
      rw [Place.closeLiteral, Token.isSymbol_eq_false_of_cls (by rw [hline]; decide),
        if_neg Bool.false_ne_true]
      rfl
  | _ => exact absurd rfl hoffender

end Draft

-- ============================================================================
-- Errors of sources
-- ============================================================================

namespace Grammar

/-- A source is no grammar if reading its tokens fails at one of them. -/
theorem compile_eq_error_iff {source : String} {error : GrammarError} :
    compile source = .error error ↔ ∃ before token after middle,
      (sourceLexer.tokenize source).toList = before ++ token :: after ∧
        Draft.blank.Runs before middle ∧
        middle.read (sourceLexer.tokenize source).toList token = .error error := by
  rw [← Draft.readAll_eq_error_iff, compile, RuleTable.ofTokens]
  cases Draft.blank.readAll (sourceLexer.tokenize source).toList
      (sourceLexer.tokenize source).toList with
  | error found =>
      constructor
      · exact fun h => congrArg Except.error (Except.error.inj h)
      · exact fun h => congrArg Except.error (Except.error.inj h)
  | ok draft =>
      constructor
      · intro h
        cases h
      · intro h
        cases h

/-- An error points to a token of the source. -/
theorem offender_mem {source : String} {error : GrammarError} (h : compile source = .error error) :
    error.offender ∈ (sourceLexer.tokenize source).toList := by
  obtain ⟨before, token, after, middle, hsplit, hruns, hread⟩ := compile_eq_error_iff.1 h
  rw [hsplit]
  rcases List.mem_cons.1 (Draft.fails_of_read hread).offender_mem with htoken | hkept
  · exact htoken ▸ List.mem_append_right _ List.mem_cons_self
  · rcases List.mem_append.1 (hruns.kept_subset hkept) with hmem | hmem
    · exact List.mem_append_left _ hmem
    · exact nomatch hmem

/-- The tokens of a source that goes on are those of the source, with a line end for the
    mark at its end. -/
theorem exists_toList_tokenize_joined {source : String}
    (hend : ∀ c ∈ source.toList.getLast?, c ≠ '\\' ∧ c ≠ '\r') (later : String) :
    ∃ (kept : List Token) (ending line : Token) (more : List Token),
      (sourceLexer.tokenize source).toList = kept ++ [ending] ∧ ending.cls = .ending ∧
      (sourceLexer.tokenize (joined source later)).toList = kept ++ line :: more ∧
      line.cls = .line := by
  let lexemes := sourceLexer.lexemes source.toList
  have hjoined : (sourceLexer.tokenize (joined source later)).toList =
      (Cursor.beginning.mark .beginning :: Cursor.beginning.place lexemes) ++
        (Cursor.beginning.afterAll lexemes).token ⟨.line, ['\n'], true⟩ ::
          ((Cursor.beginning.afterAll lexemes).after ⟨.line, ['\n'], true⟩).placeAll
            (sourceLexer.lexemes later.toList) := by
    rw [Lexer.toList_tokenize, toList_joinedText,
      Lexer.lexemes_joined holdsNoFeed_sourceLexer hend, Cursor.placeAll_append,
      Cursor.placeAll_cons, List.cons_append]
  exact ⟨_, (sourceLexer.tokenize source).ending, _, _, rfl, rfl, hjoined, rfl⟩

/-- If its end is not what is wrong with a source, the source stays wrong in the same way
    when it goes on. -/
theorem compile_joined_eq_error {source : String} {error : GrammarError}
    (h : compile source = .error error)
    (hend : ∀ c ∈ source.toList.getLast?, c ≠ '\\' ∧ c ≠ '\r')
    (hoffender : error.offender.cls ≠ .ending) (later : String) :
    compile (joined source later) = .error error := by
  obtain ⟨kept, ending, line, more, htokens, hending, hjoined, hline⟩ :=
    exists_toList_tokenize_joined hend later
  obtain ⟨before, token, after, middle, hsplit, hruns, hread⟩ := compile_eq_error_iff.1 h
  have hknown : middle.Known before := hruns.known (Draft.known_blank _) fun _ => id
  rw [hsplit] at hread
  rw [htokens] at hsplit
  rw [compile_eq_error_iff, hjoined]
  rcases List.eq_nil_or_concat after with rfl | ⟨after, last, rfl⟩
  · -- The token is the mark at the end, and the line end fails in its place.
    obtain ⟨rfl, hlast⟩ := List.append_inj' hsplit rfl
    obtain rfl := List.head_eq_of_cons_eq hlast
    have hne : error.offender ≠ ending := fun heq => hoffender (heq ▸ hending)
    refine ⟨kept, line, more, middle, rfl, hruns, ?_⟩
    rw [hknown.read_append _ [ending]]
    exact Draft.read_line_of_read_ending hending hline hread hne
  · rw [List.concat_eq_append, ← List.cons_append, ← List.append_assoc] at hsplit
    obtain ⟨rfl, -⟩ := List.append_inj' hsplit rfl
    refine ⟨before, token, after ++ line :: more, middle, by simp, hruns, ?_⟩
    rw [List.append_assoc, hknown.read_append _ (token :: after.concat last)]
    exact hread

/-- What is wrong with a source is said of a place in it, and stays wrong.  The token that an
    error points to is a piece of the source; its line is one more than the line feeds in
    front of it, and its column one more than the characters behind the last of them.  And
    if that token is not the end of the source, whatever is written on the lines behind the
    source leaves the error as it is, unless it goes on with the last line: a backslash at
    the end of the source continues the line, and a carriage return there is part of the
    line end. -/
theorem errors_are_located_and_stay {source : String} {error : GrammarError}
    (h : compile source = .error error) :
    (∃ before after : List Char,
      source.toList = before ++ error.offender.text.toList ++ after ∧
      error.offender.span.start = byteLength before ∧
      error.offender.span.stop = byteLength (before ++ error.offender.text.toList) ∧
      error.offender.line = 1 + before.count '\n' ∧
      error.offender.column = 1 + (before.reverse.takeWhile (· != '\n')).length) ∧
    ((∀ c ∈ source.toList.getLast?, c ≠ '\\' ∧ c ≠ '\r') → error.offender.cls ≠ .ending →
      ∀ later, compile (source ++ "\n" ++ later) = .error error) := by
  refine ⟨?_, fun hend hoffender later => compile_joined_eq_error h hend hoffender later⟩
  obtain ⟨earlier, later, hsplit⟩ := List.append_of_mem (offender_mem h)
  obtain ⟨hstart, hstands⟩ := Lexer.standsBehind_of_toList_eq holdsNoFeed_sourceLexer hsplit
  obtain ⟨-, hstop⟩ := Lexer.span_of_tokenize_eq hsplit
  have hwhole := sourceLexer.allText_tokenize source
  rw [hsplit, Token.allText, List.flatMap_append, List.flatMap_cons, ← List.append_assoc] at hwhole
  rw [Token.allText, List.flatMap_append, List.flatMap_singleton] at hstop
  exact ⟨Token.allText earlier, Token.allText later, hwhole.symm, hstart, hstop, hstands.line_eq,
    hstands.column_eq⟩

/-- A quote that is not closed on its line is pointed to, and a quote on the next line does
    not close it. -/
theorem open_quote_is_pointed_to :
    ∃ error, compile "a := b\nc := \"é\" 'x" = .error error ∧
      error.fault = .unterminatedLiteral '\'' ∧ error.offender.span = ⟨17, 18⟩ ∧
      (∃ before after : List Char,
        "a := b\nc := \"é\" 'x".toList = before ++ ['\''] ++ after ∧ byteLength before = 17 ∧
        1 + before.count '\n' = 2 ∧ 1 + (before.reverse.takeWhile (· != '\n')).length = 10) ∧
      ∀ later, compile ("a := b\nc := \"é\" 'x" ++ "\n" ++ later) = .error error := by
  have hcompile : compile "a := b\nc := \"é\" 'x" =
      .error ⟨.unterminatedLiteral '\'', ⟨.symbol, "'", ⟨17, 18⟩, 2, 10⟩⟩ := by decide +kernel
  obtain ⟨⟨before, after, hsplit, hstart, -, hline, hcolumn⟩, hstays⟩ :=
    errors_are_located_and_stay hcompile
  refine ⟨_, hcompile, rfl, rfl, ⟨before, after, hsplit, hstart.symm, hline.symm, hcolumn.symm⟩,
    hstays ?_ (by decide)⟩
  have hlast : "a := b\nc := \"é\" 'x".toList.getLast? = some 'x' := by decide
  rw [hlast]
  rintro _ ⟨⟩
  decide

end Grammar

end TokenGrammar
