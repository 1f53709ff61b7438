/-
  TokenGrammar.Proofs.Lexer.LineEnds

  A text whose lines end with a carriage return and a line feed, and the same text with
  line feeds alone.  A carriage return counts as a blank, so that blanks at the end of a
  line take it up; otherwise it belongs to the line end, or to the backslash in front of
  it that continues the line (`SameLines`).  Comments and strings end in front of it.

  Main statement: `Lexer.sameButLineEnds_tokenize`.
-/

import Mathlib.Data.List.Forall2
import TokenGrammar.Proofs.Lexer.Lines

namespace TokenGrammar

-- ============================================================================
-- Returns
-- ============================================================================

/-- The characters with a carriage return in front of every line feed. -/
def withReturns (text : List Char) : List Char :=
  text.flatMap fun c => if c = '\n' then ['\r', '\n'] else [c]

/-- The text with a carriage return in front of every line feed. -/
def Text.withReturns (text : String) : String := String.ofList (TokenGrammar.withReturns text.toList)

theorem withReturns_append (text rest : List Char) :
    withReturns (text ++ rest) = withReturns text ++ withReturns rest :=
  List.flatMap_append

theorem withReturns_lineFeed (text : List Char) :
    withReturns ('\n' :: text) = '\r' :: '\n' :: withReturns text := rfl

theorem withReturns_cons_of_ne {c : Char} (h : c ≠ '\n') (text : List Char) :
    withReturns (c :: text) = c :: withReturns text :=
  congrArg (· ++ withReturns text) (if_neg h)

theorem withReturns_of_not_mem {text : List Char} (h : '\n' ∉ text) : withReturns text = text := by
  induction text with
  | nil => rfl
  | cons c text ih =>
      obtain ⟨hc, htext⟩ := not_or.1 (mt List.mem_cons.2 h)
      rw [withReturns_cons_of_ne (Ne.symm hc), ih htext]

/-- A line of a text, and what follows it. -/
theorem exists_line (text : List Char) :
    ∃ line rest, text = line ++ rest ∧ '\n' ∉ line ∧ AtBreak rest ∧ AtBreak (withReturns rest) := by
  refine ⟨text.takeWhile (· != '\n'), text.dropWhile (· != '\n'),
    List.takeWhile_append_dropWhile.symm, fun h => ?_, ?_⟩
  · exact absurd (List.mem_takeWhile_imp h) (by decide)
  · rcases hrest : text.dropWhile (· != '\n') with _ | ⟨c, rest⟩
    · exact ⟨.nil, .nil⟩
    · have hhead : c ∈ (text.dropWhile (· != '\n')).head? := by
        rw [hrest]
        rfl
      obtain rfl : c = '\n' := by simpa using eq_false_of_mem_head?_dropWhile c hhead
      exact ⟨.cons (by decide) _, .cons (by decide) _⟩

-- ============================================================================
-- Lexemes
-- ============================================================================

/-- The lexemes of a text, and those of the text with returns. -/
inductive SameLines : List Lexeme → List Lexeme → Prop where
  | nil : SameLines [] []
  | same (lexeme : Lexeme) {lexemes lexemes' : List Lexeme} (h : SameLines lexemes lexemes') :
      SameLines (lexeme :: lexemes) (lexeme :: lexemes')
  | lineEnd {lexemes lexemes' : List Lexeme} (h : SameLines lexemes lexemes') :
      SameLines (⟨.line, ['\n'], true⟩ :: lexemes) (⟨.line, ['\r', '\n'], true⟩ :: lexemes')
  | continuation {lexemes lexemes' : List Lexeme} (h : SameLines lexemes lexemes') :
      SameLines (⟨.space, ['\\', '\n'], true⟩ :: lexemes)
        (⟨.space, ['\\', '\r', '\n'], true⟩ :: lexemes')
  /-- The return is one of the blanks that end the line. -/
  | blanks (run : List Char) {lexemes lexemes' : List Lexeme} (h : SameLines lexemes lexemes') :
      SameLines (⟨.space, run, false⟩ :: ⟨.line, ['\n'], true⟩ :: lexemes)
        (⟨.space, run ++ ['\r'], false⟩ :: ⟨.line, ['\n'], true⟩ :: lexemes')

theorem SameLines.append {lexemes lexemes' : List Lexeme} (h : SameLines lexemes lexemes')
    (before : List Lexeme) : SameLines (before ++ lexemes) (before ++ lexemes') := by
  induction before with
  | nil => exact h
  | cons lexeme before ih => exact .same lexeme ih

namespace Lexer

variable {lexer : Lexer}

/-- Whether a text has the same lexemes with returns, but for line ends. -/
def SameWithReturns (lexer : Lexer) (text : List Char) : Prop :=
  SameLines (lexer.lexemes text) (lexer.lexemes (withReturns text))

/-- Blanks and what follows them, which may be the end of the line. -/
theorem sameWithReturns_blanks {run rest : List Char} (hne : run ≠ [])
    (hrun : ∀ c ∈ run, isBlank c = true) (hreturn : '\r' ∉ run)
    (hrest : ∀ c ∈ rest.head?, isBlank c = false) (hsame : lexer.SameWithReturns rest)
    (hnext : ∀ next, rest = '\n' :: next → lexer.SameWithReturns next) :
    lexer.SameWithReturns (run ++ rest) := by
  have hfeed : '\n' ∉ run := fun hmem => absurd (hrun _ hmem) (by decide)
  have hline : ∀ behind, lineEnd? (run ++ behind) = none := by
    intro behind
    obtain ⟨c, run, rfl⟩ := List.exists_cons_of_ne_nil hne
    exact lineEnd?_eq_none_of_ne (List.ne_of_not_mem_cons hfeed).symm
      (List.ne_of_not_mem_cons hreturn).symm _
  have hlexemes := lexer.lexemes_blanks_append hne hrun hrest (hline rest)
  unfold SameWithReturns at hsame hnext ⊢
  rw [withReturns_append, withReturns_of_not_mem hfeed, hlexemes]
  rcases rest with _ | ⟨c, rest⟩
  · rw [show withReturns [] = [] from rfl] at hsame ⊢
    rw [hlexemes]
    exact .same _ hsame
  · by_cases hc : c = '\n'
    · subst hc
      -- The carriage return joins the run, and the line feed is left alone.
      have hblanks : ∀ c ∈ run ++ ['\r'], isBlank c = true := by
        intro c hc
        rcases List.mem_append.1 hc with hc | hc
        · exact hrun c hc
        · rw [List.mem_singleton.1 hc]
          decide
      have hfeedNext : ∀ c ∈ ('\n' :: withReturns rest).head?, isBlank c = false := by
        rintro _ ⟨⟩
        decide
      have hlexemes' := lexer.lexemes_blanks_append (List.append_ne_nil_of_left_ne_nil hne _)
        hblanks hfeedNext (by rw [List.append_assoc]; exact hline _)
      rw [withReturns_lineFeed, List.append_cons, hlexemes', lexemes_lineFeed, lexemes_lineFeed]
      exact .blanks run (hnext rest rfl)
    · have hrest' : ∀ next ∈ (c :: withReturns rest).head?, isBlank next = false := by
        rintro _ ⟨⟩
        exact hrest c rfl
      rw [withReturns_cons_of_ne hc] at hsame ⊢
      rw [lexer.lexemes_blanks_append hne hrun hrest' (hline _)]
      exact .same _ hsame

/-- What is taken off a line, and what follows it. -/
theorem sameWithReturns_bare (hlines : lexer.StaysInLines) {c : Char} {line rest : List Char}
    (hfeed : '\n' ∉ c :: line) (hbreak : AtBreak rest) (hbreak' : AtBreak (withReturns rest))
    (hbare : IsBare c (line ++ rest)) (hbare' : IsBare c (line ++ withReturns rest))
    (hsame : lexer.SameWithReturns ((lexer.scan c line).rest ++ rest)) :
    lexer.SameWithReturns (c :: (line ++ rest)) := by
  have hleft : '\n' ∉ (lexer.scan c line).rest := fun hmem =>
    hfeed ((lexer.takes_scan c line).whole ▸ List.mem_append_right _ hmem)
  unfold SameWithReturns at hsame ⊢
  rw [withReturns_append, withReturns_of_not_mem hleft] at hsame
  rw [← List.cons_append, withReturns_append, withReturns_of_not_mem hfeed, List.cons_append,
    List.cons_append, lexer.lexemes_bare_append (hlines.stopsAt hbreak) hbare,
    lexer.lexemes_bare_append (hlines.stopsAt hbreak') hbare']
  exact hsame.append _

/-- A line does not begin with space unless it begins with a blank or is continued. -/
theorem isBare_of_line {c : Char} {line rest : List Char} (hblank : isBlank c = false)
    (hfeed : '\n' ∉ c :: line) (hreturn : '\r' ∉ line)
    (hcontinued : c = '\\' → line = [] → rest = []) : IsBare c (line ++ rest) := by
  refine ⟨isWhiteSpace_eq_false_of_isBlank hblank (List.ne_of_not_mem_cons hfeed).symm, ?_⟩
  intro hc
  rcases line with _ | ⟨next, line⟩
  · rw [hcontinued hc rfl]
    rfl
  · have hnext := List.not_mem_of_not_mem_cons hfeed
    exact lineEnd?_eq_none_of_ne (List.ne_of_not_mem_cons hnext).symm
      (List.ne_of_not_mem_cons hreturn).symm _

/-- A text without carriage returns has the same lexemes with them, but for line ends. -/
theorem sameWithReturns_of_not_mem (hlines : lexer.StaysInLines) (text : List Char)
    (h : '\r' ∉ text) : lexer.SameWithReturns text := by
  induction hlength : text.length using Nat.strong_induction_on generalizing text with
  | _ length ih =>
  subst hlength
  rcases text with _ | ⟨c, text⟩
  · unfold SameWithReturns
    rw [show withReturns [] = [] from rfl, lexemes_nil]
    exact .nil
  have htext : '\r' ∉ text := List.not_mem_of_not_mem_cons h
  by_cases hfeed : c = '\n'
  · subst hfeed
    unfold SameWithReturns
    rw [withReturns_lineFeed, lexemes_lineFeed, lexemes_returnFeed]
    exact .lineEnd (ih _ (Nat.lt_succ_self _) text htext rfl)
  by_cases hblank : isBlank c = true
  · obtain ⟨run, rest, hsplit, hne, hrun, hrest⟩ := exists_blanks hblank text
    rw [hsplit] at h ih ⊢
    have hlength : (run ++ rest).length = run.length + rest.length := List.length_append
    have hpos := List.length_pos_iff.2 hne
    have hrestReturn : '\r' ∉ rest := fun hmem => h (List.mem_append_right _ hmem)
    refine sameWithReturns_blanks hne hrun (fun hmem => h (List.mem_append_left _ hmem)) hrest
      (ih _ (by omega) rest hrestReturn rfl) ?_
    rintro next rfl
    rw [List.length_cons] at hlength
    exact ih _ (by omega) next (List.not_mem_of_not_mem_cons hrestReturn) rfl
  obtain ⟨line, rest, rfl, hline, hbreak, hbreak'⟩ := exists_line text
  have hfeedless : '\n' ∉ c :: line := List.not_mem_cons_of_ne_of_not_mem (Ne.symm hfeed) hline
  have hreturnless : '\r' ∉ line := fun hmem => htext (List.mem_append_left _ hmem)
  by_cases hcontinued : c = '\\' ∧ line = [] ∧ rest ≠ []
  · obtain ⟨rfl, rfl, hrest⟩ := hcontinued
    obtain ⟨next, rest, rfl⟩ := List.exists_cons_of_ne_nil hrest
    have hnext := hbreak next rfl
    rw [isLineBreak, Bool.or_eq_true, beq_iff_eq, beq_iff_eq] at hnext
    rcases hnext with rfl | rfl
    · have hshorter : rest.length < ('\\' :: ([] ++ '\n' :: rest)).length := by
        simp only [List.nil_append, List.length_cons]
        omega
      have hsame := ih _ hshorter rest (List.not_mem_of_not_mem_cons htext) rfl
      have hlexemes := lexer.lexemes_continuation_append
        (show lineEnd? ('\n' :: rest) = some (['\n'], rest) from rfl)
      have hlexemes' := lexer.lexemes_continuation_append
        (show lineEnd? ('\r' :: '\n' :: withReturns rest) =
          some (['\r', '\n'], withReturns rest) from rfl)
      unfold SameWithReturns
      rw [List.nil_append, withReturns_cons_of_ne (by decide), withReturns_lineFeed, hlexemes,
        hlexemes']
      exact .continuation hsame
    · exact absurd List.mem_cons_self htext
  · have hover : c = '\\' → line = [] → rest = [] := fun hc hnil =>
      Decidable.byContradiction fun hrest => hcontinued ⟨hc, hnil, hrest⟩
    have hblank := Bool.eq_false_iff.2 hblank
    have hbare : IsBare c (line ++ rest) := isBare_of_line hblank hfeedless hreturnless hover
    have hbare' : IsBare c (line ++ withReturns rest) :=
      isBare_of_line hblank hfeedless hreturnless fun hc hnil => by rw [hover hc hnil]; rfl
    have hwhole := (lexer.takes_scan c line).whole
    have hshorter := (lexer.takes_scan c line).length_rest_lt
    refine sameWithReturns_bare hlines hfeedless hbreak hbreak' hbare hbare' ?_
    refine ih _ ?_ _ (fun hmem => ?_) rfl
    · rw [List.length_cons] at hshorter
      rw [List.length_append, List.length_cons, List.length_append]
      omega
    · rcases List.mem_append.1 hmem with hmem | hmem
      · have hmem : '\r' ∈ c :: line := hwhole ▸ List.mem_append_right _ hmem
        exact h (List.mem_append_left rest hmem)
      · exact htext (List.mem_append_right _ hmem)

end Lexer

-- ============================================================================
-- Tokens
-- ============================================================================

/-- Two tokens that are the same but for the characters that end a line: they are of one
    class and stand on one line, they hold the same text unless they are white space or a
    line end, and they stand in the same column unless they are a line end. -/
structure Token.SameButLineEnds (token other : Token) : Prop where
  cls_eq : token.cls = other.cls
  line_eq : token.line = other.line
  text_eq : token.cls ≠ .space → token.cls ≠ .line → token.text = other.text
  column_eq : token.cls ≠ .line → token.column = other.column

/-- Two streams of as many tokens, each of which is the same as the other one at its
    position but for line ends. -/
structure TokenStream.SameButLineEnds (left right : TokenStream) : Prop where
  size_eq : left.size = right.size
  get (position : Nat) : (left.get position).SameButLineEnds (right.get position)

namespace Cursor

/-- Two places in the same line and column. -/
structure Level (cursor other : Cursor) : Prop where
  line_eq : cursor.line = other.line
  column_eq : cursor.column = other.column

variable {cursor other : Cursor}

theorem Level.mark (h : cursor.Level other) (cls : TokenClass) :
    (cursor.mark cls).SameButLineEnds (other.mark cls) :=
  ⟨rfl, h.line_eq, fun _ _ => rfl, fun _ => h.column_eq⟩

theorem Level.after (h : cursor.Level other) (lexeme : Lexeme) :
    (cursor.after lexeme).Level (other.after lexeme) := by
  unfold Cursor.after
  rw [h.line_eq, h.column_eq]
  exact ⟨rfl, rfl⟩

/-- Behind line ends on the same line two places are level. -/
theorem level_after_of_endsLine (h : cursor.line = other.line) {lexeme lexeme' : Lexeme}
    (hends : lexeme.endsLine = true) (hends' : lexeme'.endsLine = true) :
    (cursor.after lexeme).Level (other.after lexeme') := by
  unfold Cursor.after
  rw [h, hends, hends']
  exact ⟨rfl, rfl⟩

/-- The tokens of such lexemes are the same but for line ends. -/
theorem sameButLineEnds_place {lexemes lexemes' : List Lexeme} (hsame : SameLines lexemes lexemes')
    (h : cursor.Level other) :
    List.Forall₂ Token.SameButLineEnds (cursor.place lexemes) (other.place lexemes') ∧
      (cursor.afterAll lexemes).Level (other.afterAll lexemes') := by
  induction hsame generalizing cursor other with
  | nil => exact ⟨.nil, h⟩
  | same lexeme _ ih =>
      obtain ⟨htokens, hend⟩ := ih (h.after lexeme)
      exact ⟨.cons ⟨rfl, h.line_eq, fun _ _ => rfl, fun _ => h.column_eq⟩ htokens, hend⟩
  | lineEnd _ ih =>
      have hlevel : (cursor.after ⟨.line, ['\n'], true⟩).Level
          (other.after ⟨.line, ['\r', '\n'], true⟩) := level_after_of_endsLine h.line_eq rfl rfl
      obtain ⟨htokens, hend⟩ := ih hlevel
      refine ⟨.cons ⟨rfl, h.line_eq, fun _ hline => ?_, fun hline => ?_⟩ htokens, hend⟩
      · exact absurd rfl hline
      · exact absurd rfl hline
  | continuation _ ih =>
      have hlevel : (cursor.after ⟨.space, ['\\', '\n'], true⟩).Level
          (other.after ⟨.space, ['\\', '\r', '\n'], true⟩) :=
        level_after_of_endsLine h.line_eq rfl rfl
      obtain ⟨htokens, hend⟩ := ih hlevel
      refine ⟨.cons ⟨rfl, h.line_eq, fun hspace _ => ?_, fun _ => h.column_eq⟩ htokens, hend⟩
      exact absurd rfl hspace
  | blanks run _ ih =>
      have hlevel : ((cursor.after ⟨.space, run, false⟩).after ⟨.line, ['\n'], true⟩).Level
          ((other.after ⟨.space, run ++ ['\r'], false⟩).after ⟨.line, ['\n'], true⟩) := by
        have hline : (cursor.after ⟨.space, run, false⟩).line =
            (other.after ⟨.space, run ++ ['\r'], false⟩).line := h.line_eq
        exact level_after_of_endsLine hline rfl rfl
      obtain ⟨htokens, hend⟩ := ih hlevel
      refine ⟨.cons ⟨rfl, h.line_eq, fun hspace _ => ?_, fun _ => h.column_eq⟩
        (.cons ⟨rfl, h.line_eq, fun _ hline => ?_, fun hline => ?_⟩ htokens), hend⟩
      · exact absurd rfl hspace
      · exact absurd rfl hline
      · exact absurd rfl hline

end Cursor

/-- Streams whose tokens are pairwise the same but for line ends. -/
theorem TokenStream.sameButLineEnds_of_forall₂ {left right : TokenStream}
    (htokens : List.Forall₂ Token.SameButLineEnds left.tokens.toList right.tokens.toList)
    (hending : left.ending.SameButLineEnds right.ending) : left.SameButLineEnds right := by
  have hlength : left.tokens.size = right.tokens.size := htokens.length_eq
  refine ⟨congrArg (· + 1) hlength, fun position => ?_⟩
  by_cases hposition : position < left.tokens.size
  · have hposition' : position < right.tokens.size := hlength ▸ hposition
    rw [TokenStream.get, TokenStream.get, Array.getElem?_eq_getElem hposition,
      Array.getElem?_eq_getElem hposition', ← Array.getElem_toList, ← Array.getElem_toList]
    exact htokens.get hposition hposition'
  · have hlast : left.last ≤ position := Nat.le_of_not_lt hposition
    have hlast' : right.last ≤ position := le_of_eq_of_le hlength.symm hlast
    rw [get_of_last_le hlast, get_of_last_le hlast']
    exact hending

/-- A text without carriage returns has the same tokens with one in front of each line
    feed, but for line ends. -/
theorem Lexer.sameButLineEnds_tokenize {lexer : Lexer} (hlines : lexer.StaysInLines)
    {text : String} (h : '\r' ∉ text.toList) :
    (lexer.tokenize text).SameButLineEnds (lexer.tokenize (Text.withReturns text)) := by
  have hbeginning : Cursor.beginning.Level Cursor.beginning := ⟨rfl, rfl⟩
  have hsame : SameLines (lexer.lexemes text.toList)
      (lexer.lexemes (Text.withReturns text).toList) := by
    rw [Text.withReturns, String.toList_ofList]
    exact sameWithReturns_of_not_mem hlines text.toList h
  obtain ⟨htokens, hend⟩ := Cursor.sameButLineEnds_place hsame hbeginning
  exact TokenStream.sameButLineEnds_of_forall₂ (.cons (hbeginning.mark _) htokens) (hend.mark _)

end TokenGrammar
