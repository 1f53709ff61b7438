/-
  TokenGrammar.Proofs.Grammar.Escaping

  How literals are written.  The lexer looks for the quote that closes a literal, and
  whoever reads the literal resolves its escapes; both take a backslash and the character
  behind it as one, so that the lexer never stops between the two (`IsHeld.standsFor`).
  Hence no literal ends in half an escape, and every text that a line can hold has a
  literal that stands for it.

  Main statement: `Grammar.literals_say_any_text`.
-/

import TokenGrammar.Proofs.Grammar.RoundTrip
import TokenGrammar.Proofs.Grammar.Stretches
import TokenGrammar.Proofs.Grammar.Visits

namespace TokenGrammar

-- ============================================================================
-- Escapes
-- ============================================================================

/-- What a written text stands for, character by character and escape by escape.  A text
    that ends in a backslash that belongs to no escape stands for nothing. -/
inductive StandsFor : List Char → List Char → Prop
  | nil : StandsFor [] []
  | plain {c : Char} {held text : List Char} (hc : c ≠ '\\') (hrest : StandsFor held text) :
      StandsFor (c :: held) (c :: text)
  | lineFeed {held text : List Char} (hrest : StandsFor held text) :
      StandsFor ('\\' :: 'n' :: held) ('\n' :: text)
  | tab {held text : List Char} (hrest : StandsFor held text) :
      StandsFor ('\\' :: 't' :: held) ('\t' :: text)
  | itself {c : Char} {held text : List Char} (hc : c ∉ ['n', 't']) (hrest : StandsFor held text) :
      StandsFor ('\\' :: c :: held) (c :: text)

/-- How many backslashes stand at the end of a text. -/
def backslashesAtEnd (held : List Char) : Nat := (held.reverse.takeWhile (· == '\\')).length

/-- Whether the last backslash of a text escapes nothing. -/
def Dangles (held : List Char) : Prop := backslashesAtEnd held % 2 = 1

/-- How a character is written between double quotes. -/
def escapeChar (c : Char) : List Char :=
  if c = '\\' ∨ c = '"' then ['\\', c] else if c = '\n' then ['\\', 'n'] else [c]

/-- How a text is written between double quotes. -/
def escape (text : List Char) : List Char := text.flatMap escapeChar

section Escapes

variable {quote : Char} {held text : List Char}

theorem StandsFor.unescape_eq (h : StandsFor held text) : unescape held = text := by
  induction h with
  | nil => rfl
  | plain hc _ ih => rw [unescape_cons hc, ih]
  | lineFeed _ ih => rw [unescape, ih]
  | tab _ ih => rw [unescape, ih]
  | itself hc _ ih =>
      simp only [List.mem_cons, List.not_mem_nil, or_false, not_or] at hc
      rw [unescape, ih]
      · exact hc.1
      · exact hc.2

/-- What the quotes of a string hold stands for what its escapes resolve to. -/
theorem IsHeld.standsFor (h : IsHeld quote held) : StandsFor held (unescape held) := by
  induction h with
  | nil => exact .nil
  | @plain c held hc _ ih =>
      simp only [List.mem_cons, List.not_mem_nil, or_false, not_or] at hc
      rw [unescape_cons hc.2.1]
      exact .plain hc.2.1 ih
  | @escape c held _ _ ih =>
      by_cases hfeed : c = 'n'
      · subst hfeed
        exact .lineFeed ih
      · by_cases htab : c = 't'
        · subst htab
          exact .tab ih
        · rw [unescape]
          · exact .itself (by simp [hfeed, htab]) ih
          · exact hfeed
          · exact htab

theorem backslashesAtEnd_of_all (h : ∀ d ∈ held, d = '\\') : backslashesAtEnd held = held.length := by
  have hwhole : held.reverse.takeWhile (· == '\\') = held.reverse :=
    List.takeWhile_eq_self_iff.2 fun d hd => by simp [h d (List.mem_reverse.1 hd)]
  rw [backslashesAtEnd, hwhole, List.length_reverse]

/-- A character in front of a text is counted only if it and all of the text are
    backslashes. -/
theorem backslashesAtEnd_cons {c : Char} {held : List Char}
    (h : ¬ (c = '\\' ∧ ∀ d ∈ held, d = '\\')) :
    backslashesAtEnd (c :: held) = backslashesAtEnd held := by
  rw [backslashesAtEnd, backslashesAtEnd, List.reverse_cons, List.takeWhile_append]
  split
  · next hlength =>
    have hwhole := (List.takeWhile_prefix (· == '\\')).eq_of_length hlength
    have hall : ∀ d ∈ held, d = '\\' := fun d hd => by
      simpa using List.takeWhile_eq_self_iff.1 hwhole d (List.mem_reverse.2 hd)
    have hc : c ≠ '\\' := fun hc => h ⟨hc, hall⟩
    rw [hwhole]
    simp [hc]
  · rfl

/-- An escape in front of a text changes nothing about its end. -/
theorem dangles_escape (c : Char) (held : List Char) :
    Dangles ('\\' :: c :: held) ↔ Dangles held := by
  by_cases hall : ∀ d ∈ held, d = '\\'
  · by_cases hc : c = '\\'
    · subst hc
      have hboth : ∀ d ∈ '\\' :: '\\' :: held, d = '\\' :=
        List.forall_mem_cons.2 ⟨rfl, List.forall_mem_cons.2 ⟨rfl, hall⟩⟩
      rw [Dangles, Dangles, backslashesAtEnd_of_all hall, backslashesAtEnd_of_all hboth]
      simp only [List.length_cons]
      omega
    · rw [Dangles, Dangles, backslashesAtEnd_cons fun h => hc (h.2 c List.mem_cons_self),
        backslashesAtEnd_cons fun h => hc h.1]
  · have hnot : ¬ ∀ d ∈ c :: held, d = '\\' :=
      fun h => hall fun d hd => h d (List.mem_cons_of_mem c hd)
    rw [Dangles, Dangles, backslashesAtEnd_cons fun h => hnot h.2,
      backslashesAtEnd_cons fun h => hall h.2]

theorem dangles_cons {c : Char} (hc : c ≠ '\\') (held : List Char) :
    Dangles (c :: held) ↔ Dangles held := by
  rw [Dangles, Dangles, backslashesAtEnd_cons fun h => hc h.1]

/-- What stands for something does not end in half an escape. -/
theorem StandsFor.not_dangles (h : StandsFor held text) : ¬ Dangles held := by
  induction h with
  | nil => exact Nat.zero_ne_one
  | plain hc _ ih => rwa [dangles_cons hc]
  | lineFeed _ ih => rwa [dangles_escape]
  | tab _ ih => rwa [dangles_escape]
  | itself _ _ ih => rwa [dangles_escape]

/-- A written text stands for the text. -/
theorem standsFor_escape (text : List Char) : StandsFor (escape text) text := by
  induction text with
  | nil => exact .nil
  | cons c text ih =>
      rw [escape, List.flatMap_cons, escapeChar]
      split
      · next hc => exact .itself (by rcases hc with rfl | rfl <;> decide) ih
      · next hc =>
        split
        · next hfeed =>
          subst hfeed
          exact .lineFeed ih
        · exact .plain (fun hbackslash => hc (.inl hbackslash)) ih

/-- A written text may stand between double quotes. -/
theorem isHeld_escape (h : '\r' ∉ text) : IsHeld '"' (escape text) := by
  induction text with
  | nil => exact .nil
  | cons c text ih =>
      rw [List.mem_cons, not_or] at h
      rw [escape, List.flatMap_cons, escapeChar]
      split
      · next hc => exact .escape (by rcases hc with rfl | rfl <;> decide) (ih h.2)
      · next hc =>
        split
        · exact .escape (by decide) (ih h.2)
        · next hfeed =>
          have hplain : c ∉ ['"', '\\', '\n', '\r'] := by
            simp only [List.mem_cons, List.not_mem_nil, or_false, not_or]
            exact ⟨fun h => hc (.inr h), fun h => hc (.inl h), hfeed, Ne.symm h.1⟩
          exact .plain hplain (ih h.2)

theorem escape_ne_nil (h : text ≠ []) : escape text ≠ [] := by
  intro hnil
  have hstands := standsFor_escape text
  rw [hnil] at hstands
  exact h hstands.unescape_eq.symm

end Escapes

namespace Grammar

-- ============================================================================
-- Literals of a source
-- ============================================================================

/-- What a literal of a source holds stands between its quotes. -/
theorem isHeld_of_mem_sourceItems {source : String} {grammar : Grammar}
    (h : compile source = .ok grammar) {quote payload close : Token}
    (hmem : .literal quote payload close ∈ sourceItems source) :
    ∃ sign ∈ literalQuotes, payload.text.toList ≠ [] ∧ IsHeld sign payload.text.toList := by
  obtain ⟨stretches, hrow, hchars⟩ := exists_stretches h
  rw [sourceItems_of_row hrow hchars] at hmem
  rcases List.mem_append.1 (Item.mem_of_mem_joinLines hmem) with hmem | hmem
  swap
  · cases List.mem_singleton.1 hmem
  obtain ⟨⟨cursor, stretch⟩, hplaced, hitem⟩ := List.mem_filterMap.1 hmem
  have hstretch : stretch ∈ stretches := by
    rw [← Stretch.map_snd_placed .beginning stretches]
    exact List.mem_map_of_mem hplaced
  have hsound := hrow.sound stretch hstretch
  cases stretch with
  | literal sign held =>
      obtain ⟨-, rfl, -⟩ := Item.literal.inj (Option.some.inj hitem)
      refine ⟨sign, hsound.1, ?_⟩
      rw [Cursor.token, String.toList_ofList]
      exact hsound.2
  | word => cases Option.some.inj hitem
  | sign => cases Option.some.inj hitem
  | lineEnd => cases Option.some.inj hitem
  | blanks => cases hitem
  | comment => cases hitem
  | continuation => cases hitem

/-- The literals of a grammar are what the literals of its source stand for. -/
theorem hasLiteral_iff {source : String} {grammar : Grammar} (h : compile source = .ok grammar)
    {text : String} :
    grammar.rules.HasLiteral text ↔ ∃ quote payload close,
      .literal quote payload close ∈ sourceItems source ∧
        text = String.ofList (unescape payload.text.toList) := by
  obtain ⟨table, hfile, rfl⟩ := compile_eq_ok.1 h
  have hpieces : table.HasLiteral text ↔
      text ∈ (table.rules.flatMap Rule.pieces).filterMap Piece.literal? := by
    rw [← RuleTable.mem_literals, RuleTable.mem_literals_iff, List.mem_filterMap]
    constructor
    · exact fun hmem => ⟨_, hmem, rfl⟩
    · rintro ⟨piece, hmem, hpiece⟩
      cases piece with
      | literal other =>
          obtain rfl := Option.some.inj hpiece
          exact hmem
      | word => cases hpiece
      | sign => cases hpiece
      | blank => cases hpiece
      | lineEnd => cases hpiece
  show table.HasLiteral text ↔ _
  rw [hpieces, hfile.literals, List.mem_filterMap]
  constructor
  · rintro ⟨item, hmem, hitem⟩
    cases item with
    | single token => cases hitem
    | literal quote payload close =>
        exact ⟨quote, payload, close, hmem, (Option.some.inj hitem).symm⟩
  · rintro ⟨quote, payload, close, hmem, rfl⟩
    exact ⟨_, hmem, rfl⟩

/-- No literal of a grammar is empty. -/
theorem ne_empty_of_hasLiteral {source : String} {grammar : Grammar}
    (h : compile source = .ok grammar) {text : String} (htext : grammar.rules.HasLiteral text) :
    text ≠ "" := by
  obtain ⟨quote, payload, close, hmem, rfl⟩ := (hasLiteral_iff h).1 htext
  obtain ⟨sign, -, hne, hheld⟩ := isHeld_of_mem_sourceItems h hmem
  intro hnil
  refine unescape_ne_nil hne ?_
  rw [← String.toList_ofList (l := unescape payload.text.toList), hnil]
  rfl

-- ============================================================================
-- Any text
-- ============================================================================

theorem isWordText_rootName : IsWordText rootName.toList :=
  ⟨by decide, List.all_eq_true.1 (by decide)⟩

theorem define_mem_signs : ":=" ∈ signs := by decide

/-- The source of a grammar whose one rule is a literal between double quotes. -/
def literalSource (text : String) : String :=
  "ROOT := \"" ++ String.ofList (escape text.toList) ++ "\""

/-- The stretches of such a source. -/
def literalStretches (text : String) : List Stretch :=
  [.word rootName, .blanks [' '], .sign ":=", .blanks [' '], .literal '"' (escape text.toList)]

theorem toList_literalSource (text : String) :
    (literalSource text).toList = (literalStretches text).flatMap Stretch.chars := by
  simp [literalSource, literalStretches, Stretch.chars, rootName]

theorem row_literalStretches {text : String} (hne : text ≠ "") (hreturn : '\r' ∉ text.toList) :
    Stretch.Row (literalStretches text) [] := by
  have hheld : escape text.toList ≠ [] := escape_ne_nil (by simpa using hne)
  have hliteral : (Stretch.literal '"' (escape text.toList)).Sound :=
    ⟨List.mem_cons_self, hheld, isHeld_escape hreturn⟩
  refine ⟨isWordText_rootName, ?_, Stretch.sound_blank, ?_, define_mem_signs, trivial,
    Stretch.sound_blank, ?_,
    hliteral, trivial, trivial⟩
  · rintro c ⟨⟩
    decide
  · rintro c ⟨⟩
    decide
  · rintro c ⟨⟩
    decide

/-- A literal between double quotes, written with escapes, is a grammar. -/
theorem compile_literalSource {text : String} (hne : text ≠ "") (hreturn : '\r' ∉ text.toList) :
    ∃ (span whole : Span) (h : _), compile (literalSource text) =
      .ok (.ofRules ⟨[⟨rootName, [.terminal .plain span (.literal text)], whole⟩], h⟩) := by
  have hitems := sourceItems_of_row (row_literalStretches hne hreturn) (toList_literalSource text)
  obtain ⟨name, define, quote, payload, close, hshape, hname, htext, hdefine, hliteral, hpayload⟩ :
      ∃ name define quote payload close,
        Stretch.items (Stretch.placed .beginning (literalStretches text)) =
          [.single name, .single define, .literal quote payload close] ∧
        name.cls = .identifier ∧ name.text = rootName ∧ define.isSymbol ":=" = true ∧
        isLiteral quote payload close = true ∧ payload.text.toList = escape text.toList :=
    ⟨_, _, _, _, _, rfl, rfl, rfl, rfl, Piece.isLiteral_place List.mem_cons_self _ _ _ _,
      String.toList_ofList⟩
  -- What the notation derives from these items.
  have hprimary := Derives.literal hliteral
  rw [hpayload, (standsFor_escape text.toList).unescape_eq, String.ofList_toList] at hprimary
  have hrule := IsRule.intro hname (by rw [htext]; decide) hdefine (.one hprimary.plainElement) rfl
  have hdone : IsFile [.single (sourceLexer.tokenize (literalSource text)).ending] [] := .done rfl
  have hfile := IsFile.rule hrule (.inr rfl) hdone
  rw [hshape] at hitems
  have hsource : sourceItems (literalSource text) = _ := hitems.trans hfile.joinLines_eq
  rw [← hsource, htext] at hfile
  exact ⟨_, _, List.nodup_singleton _, compile_eq_ok.2 ⟨_, hfile, rfl⟩⟩

/-- A literal can say any text, and says what it holds.  Every text that is not empty and
    without carriage returns, written with escapes between double quotes, is a grammar of one
    rule, which is a literal of the text.  And what a literal of a grammar holds never ends
    in half an escape: it stands for a text, escape by escape, and that text is a literal of
    the grammar.  There are no others, and none of them is empty. -/
theorem literals_say_any_text :
    (∀ text : String, text ≠ "" → '\r' ∉ text.toList →
      ∃ (span whole : Span) (h : _),
        compile ("ROOT := \"" ++ String.ofList (escape text.toList) ++ "\"") =
          .ok (.ofRules ⟨[⟨"ROOT", [.terminal .plain span (.literal text)], whole⟩], h⟩)) ∧
    ∀ (source : String) (grammar : Grammar), compile source = .ok grammar →
      (∀ quote payload close, .literal quote payload close ∈ sourceItems source →
        ¬ Dangles payload.text.toList ∧
        ∃ text, grammar.rules.HasLiteral text ∧ StandsFor payload.text.toList text.toList ∧
          unescape payload.text.toList = text.toList) ∧
      ∀ text, grammar.rules.HasLiteral text → text ≠ "" ∧
        ∃ quote payload close, .literal quote payload close ∈ sourceItems source ∧
          StandsFor payload.text.toList text.toList := by
  refine ⟨fun text hne hreturn => compile_literalSource hne hreturn, fun source grammar h => ⟨?_, ?_⟩⟩
  · intro quote payload close hmem
    obtain ⟨sign, -, -, hheld⟩ := isHeld_of_mem_sourceItems h hmem
    refine ⟨hheld.standsFor.not_dangles, _, (hasLiteral_iff h).2 ⟨_, _, _, hmem, rfl⟩, ?_, ?_⟩
    · rw [String.toList_ofList]
      exact hheld.standsFor
    · rw [String.toList_ofList]
  · intro text htext
    refine ⟨ne_empty_of_hasLiteral h htext, ?_⟩
    obtain ⟨quote, payload, close, hmem, rfl⟩ := (hasLiteral_iff h).1 htext
    obtain ⟨sign, -, -, hheld⟩ := isHeld_of_mem_sourceItems h hmem
    refine ⟨quote, payload, close, hmem, ?_⟩
    rw [String.toList_ofList]
    exact hheld.standsFor

/-- A backslash in front of a double quote and a line feed in front of an `n` are said by
    four escapes, none of which is half of another. -/
theorem backslash_before_quote_is_said :
    ∃ grammar, compile "ROOT := \"\\\\\\\"\\nn\\\\\"" = .ok grammar ∧
      grammar.rules.HasLiteral "\\\"\nn\\" ∧
      ∀ quote payload close,
        .literal quote payload close ∈ sourceItems "ROOT := \"\\\\\\\"\\nn\\\\\"" →
          ¬ Dangles payload.text.toList := by
  obtain ⟨span, whole, hnodup, hcompile⟩ :=
    literals_say_any_text.1 "\\\"\nn\\" (by decide) (by decide)
  have hsource : "ROOT := \"" ++ String.ofList (escape "\\\"\nn\\".toList) ++ "\"" =
      "ROOT := \"\\\\\\\"\\nn\\\\\"" := by decide
  rw [hsource] at hcompile
  have hliteral : (RuleTable.mk [⟨"ROOT", [.terminal .plain span (.literal "\\\"\nn\\")], whole⟩]
      hnodup).HasLiteral "\\\"\nn\\" :=
    ⟨_, List.mem_singleton.2 rfl, .plain, span, .here (List.mem_singleton.2 rfl)⟩
  exact ⟨_, hcompile, hliteral, fun quote payload close hmem =>
    ((literals_say_any_text.2 _ _ hcompile).1 quote payload close hmem).1⟩

end Grammar

end TokenGrammar
