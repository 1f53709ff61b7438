/-
  TokenGrammar.Lexer.Lexeme

  Splitting a text into lexemes.  Each rule of a lexer looks at the beginning
  of the text that is left and either takes some lexemes off it or does not
  apply; the first rule that applies decides.  Main statements: the lexemes that
  are taken and the text that is left make up the text that was there, and no
  lexeme is empty (`Lexer.takes_scan`), hence so for the lexemes of a whole text
  (`Lexer.flatMap_lexemes`, `Lexer.ne_nil_of_mem_lexemes`).
-/
import TokenGrammar.Lexer.Basic
import TokenGrammar.Lexer.Character
import TokenGrammar.Token.Basic

namespace TokenGrammar

/-- A piece of text with its class, and whether a new line begins after it. -/
structure Lexeme where
  cls : TokenClass
  text : List Char
  endsLine : Bool
  deriving DecidableEq, Repr

/-- What a rule took off the beginning of a text, and what is left of it. -/
structure Scan where
  lexemes : List Lexeme
  rest : List Char
  deriving DecidableEq, Repr

/-- A scan with a single lexeme that does not end its line. -/
def Scan.single (cls : TokenClass) (taken rest : List Char) : Scan :=
  ⟨[⟨cls, taken, false⟩], rest⟩

-- ============================================================================
-- Rules
-- ============================================================================

/-- The line end that stands at the beginning of a text, and what follows it:
    a line feed, or a carriage return and a line feed. -/
def lineEnd? : List Char → Option (List Char × List Char)
  | '\n' :: rest => some (['\n'], rest)
  | '\r' :: '\n' :: rest => some (['\r', '\n'], rest)
  | _ => none

/-- The longest run of characters with the property `p`, if the text begins
    with one. -/
def scanRun (cls : TokenClass) (p : Char → Bool) (text : List Char) : Option Scan :=
  match text with
  | c :: _ => if p c then some (.single cls (text.takeWhile p) (text.dropWhile p)) else none
  | [] => none

/-- What follows `word` in a text that begins with it. -/
def afterWord? : List Char → List Char → Option (List Char)
  | [], text => some text
  | _ :: _, [] => none
  | w :: word, c :: text => if w = c then afterWord? word text else none

/-- The first of some registered words that stands at the beginning of the text
    and may be followed by what follows it there. -/
def scanWord (cls : TokenClass) (mayFollow : List Char → List Char → Bool)
    (words : List String) (text : List Char) : Option Scan :=
  words.findSome? fun word =>
    match word.toList, afterWord? word.toList text with
    | [], _ => none
    | _ :: _, none => none
    | c :: cs, some rest =>
      if mayFollow (c :: cs) rest then some (.single cls (c :: cs) rest) else none

/-- Whether a keyword ends where it should: a word character at its end must not
    be followed by another word character. -/
def endsOnBoundary (word rest : List Char) : Bool :=
  match word.getLast?, rest.head? with
  | some final, some next => !(isWord final && isWord next)
  | _, _ => true

/-- What a quoted string holds, and the text from where it stops.  It stops at
    the closing quote or at a line break.  A backslash takes the character after
    it along, but not over a line break. -/
def payload (quote : Char) : List Char → List Char × List Char
  | [] => ([], [])
  | '\\' :: rest =>
    match rest with
    | [] => (['\\'], [])
    | c :: rest' =>
      if isLineBreak c then (['\\'], c :: rest')
      else
        let (held, left) := payload quote rest'
        ('\\' :: c :: held, left)
  | c :: rest =>
    if isLineBreak c || c == quote then ([], c :: rest)
    else
      let (held, left) := payload quote rest
      (c :: held, left)

/-- What a string holds is one comment, if there is anything. -/
def payloadLexemes (held : List Char) : List Lexeme :=
  if held.isEmpty then [] else [⟨.comment, held, false⟩]

/-- A string behind its opening quote: both quotes are symbols, and what stands
    between them is a comment.  The closing quote may be missing. -/
def scanQuoted (quote : Char) (text : List Char) : Scan :=
  let mark : Lexeme := ⟨.symbol, [quote], false⟩
  let (held, left) := payload quote text
  match left with
  | c :: rest =>
    if c = quote then ⟨mark :: (payloadLexemes held ++ [mark]), rest⟩
    else ⟨mark :: payloadLexemes held, c :: rest⟩
  | [] => ⟨mark :: payloadLexemes held, []⟩

namespace Lexer

/-- A line end. -/
def scanLineEnd (text : List Char) : Option Scan :=
  (lineEnd? text).map fun (taken, rest) => ⟨[⟨.line, taken, true⟩], rest⟩

/-- A backslash before a line end: the next line continues this one. -/
def scanContinuation : List Char → Option Scan
  | '\\' :: text =>
    (lineEnd? text).map fun (taken, rest) => ⟨[⟨.space, '\\' :: taken, true⟩], rest⟩
  | _ => none

/-- A comment, up to the next line break. -/
def scanComment (lexer : Lexer) (text : List Char) : Option Scan :=
  match lexer.lineComment with
  | some opening =>
    if opening.toList.isPrefixOf text then scanRun .comment (!isLineBreak ·) text else none
  | none => none

/-- A quoted string. -/
def scanString (lexer : Lexer) : List Char → Option Scan
  | c :: text => if lexer.quotes.contains c then some (scanQuoted c text) else none
  | [] => none

/-- A registered keyword that does not run on into a word. -/
def scanKeyword (lexer : Lexer) (text : List Char) : Option Scan :=
  scanWord .keyword endsOnBoundary lexer.keywords text

/-- A registered symbol. -/
def scanSymbol (lexer : Lexer) (text : List Char) : Option Scan :=
  scanWord .symbol (fun _ _ => true) lexer.symbols text

/-- What may stand at the beginning of a text, in order of priority. -/
def rules (lexer : Lexer) : List (List Char → Option Scan) :=
  [scanLineEnd, scanContinuation, scanRun .space isBlank, lexer.scanComment, lexer.scanString,
   lexer.scanKeyword, lexer.scanSymbol, scanRun .identifier isWord]

/-- Take the first lexemes off a text that begins with `c`: the first rule that
    applies decides.  A character that no rule takes is a symbol of its own, so
    that lexing never fails. -/
def scan (lexer : Lexer) (c : Char) (text : List Char) : Scan :=
  (lexer.rules.findSome? (· (c :: text))).getD (.single .symbol [c] text)

end Lexer

-- ============================================================================
-- Nothing is lost
-- ============================================================================

/-- A scan takes off the beginning of `text` exactly what its lexemes hold, and
    takes at least one lexeme, none of them empty. -/
structure Scan.Takes (scan : Scan) (text : List Char) : Prop where
  whole : scan.lexemes.flatMap Lexeme.text ++ scan.rest = text
  some_lexeme : scan.lexemes ≠ []
  ne_nil : ∀ lexeme ∈ scan.lexemes, lexeme.text ≠ []

namespace Scan

theorem takes_single {cls : TokenClass} {endsLine : Bool} {taken rest text : List Char}
    (whole : taken ++ rest = text) (ne : taken ≠ []) :
    Takes ⟨[⟨cls, taken, endsLine⟩], rest⟩ text where
  whole := by simpa using whole
  some_lexeme := by simp
  ne_nil := by simpa using ne

/-- A scan leaves less text than there was. -/
theorem Takes.length_rest_lt {scan : Scan} {text : List Char} (h : scan.Takes text) :
    scan.rest.length < text.length := by
  obtain ⟨lexeme, tail, heq⟩ := List.exists_cons_of_ne_nil h.some_lexeme
  have first : lexeme.text ≠ [] := h.ne_nil lexeme (by simp [heq])
  have positive : 0 < lexeme.text.length := List.length_pos_iff.2 first
  have total := congrArg List.length h.whole
  simp only [heq, List.flatMap_cons, List.length_append] at total
  omega

end Scan

theorem append_of_lineEnd? {text taken rest : List Char}
    (h : lineEnd? text = some (taken, rest)) : taken ++ rest = text ∧ taken ≠ [] := by
  unfold lineEnd? at h
  split at h <;> simp_all
  all_goals obtain ⟨rfl, rfl⟩ := h; simp

theorem takes_of_scanRun {cls : TokenClass} {p : Char → Bool} {text : List Char} {scan : Scan}
    (h : scanRun cls p text = some scan) : scan.Takes text := by
  cases text with
  | nil => simp [scanRun] at h
  | cons c text =>
    simp only [scanRun, Option.ite_none_right_eq_some, Option.some.injEq] at h
    obtain ⟨hc, rfl⟩ := h
    exact Scan.takes_single List.takeWhile_append_dropWhile (by simp [hc])

theorem append_of_afterWord? {word text rest : List Char}
    (h : afterWord? word text = some rest) : word ++ rest = text := by
  induction word generalizing text with
  | nil => simpa [afterWord?, eq_comm] using h
  | cons w word ih =>
    cases text with
    | nil => simp [afterWord?] at h
    | cons c text =>
      unfold afterWord? at h
      split at h
      · next hwc => rw [List.cons_append, ih h, hwc]
      · cases h

theorem takes_of_scanWord {cls : TokenClass} {mayFollow : List Char → List Char → Bool}
    {words : List String} {text : List Char} {scan : Scan}
    (h : scanWord cls mayFollow words text = some scan) : scan.Takes text := by
  obtain ⟨word, -, hword⟩ := List.exists_of_findSome?_eq_some h
  split at hword
  · cases hword
  · cases hword
  · next c cs rest hcs hrest =>
    split at hword
    · cases hword
      exact Scan.takes_single (by rw [← append_of_afterWord? hrest, hcs]) (by simp)
    · cases hword

/-- What a string holds and the text from where it stops make up the text
    behind the opening quote. -/
theorem append_payload (quote : Char) (text : List Char) :
    (payload quote text).1 ++ (payload quote text).2 = text := by
  fun_induction payload quote text with
  | case1 => rfl
  | case2 => rfl
  | case3 => rfl
  | case4 c rest _ held left heq ih => simpa [heq] using ih
  | case5 => rfl
  | case6 c rest _ _ held left heq ih => simpa [heq] using ih

theorem flatMap_payloadLexemes (held : List Char) :
    (payloadLexemes held).flatMap Lexeme.text = held := by
  unfold payloadLexemes
  split
  · next h => simp [List.isEmpty_iff.1 h]
  · simp

theorem ne_nil_of_mem_payloadLexemes {held : List Char} {lexeme : Lexeme}
    (h : lexeme ∈ payloadLexemes held) : lexeme.text ≠ [] := by
  unfold payloadLexemes at h
  split at h
  · cases h
  · next hheld =>
    obtain rfl := List.mem_singleton.1 h
    simpa using hheld

theorem takes_scanQuoted (quote : Char) (text : List Char) :
    (scanQuoted quote text).Takes (quote :: text) := by
  have whole := append_payload quote text
  unfold scanQuoted
  generalize hpayload : payload quote text = found at whole
  obtain ⟨held, left⟩ := found
  dsimp only at whole ⊢
  subst whole
  have held_ne : ∀ lexeme ∈ payloadLexemes held, lexeme.text ≠ [] :=
    fun _ => ne_nil_of_mem_payloadLexemes
  split
  · split
    · next c rest hc =>
      subst hc
      refine ⟨?_, by simp, ?_⟩
      · simp [flatMap_payloadLexemes]
      · simp only [List.mem_cons, List.mem_append, List.mem_nil_iff, or_false]
        rintro lexeme (rfl | hlexeme | rfl)
        · simp
        · exact held_ne lexeme hlexeme
        · simp
    · refine ⟨by simp [flatMap_payloadLexemes], by simp, ?_⟩
      rintro lexeme hlexeme
      rcases List.mem_cons.1 hlexeme with rfl | hlexeme
      · simp
      · exact held_ne lexeme hlexeme
  · refine ⟨by simp [flatMap_payloadLexemes], by simp, ?_⟩
    rintro lexeme hlexeme
    rcases List.mem_cons.1 hlexeme with rfl | hlexeme
    · simp
    · exact held_ne lexeme hlexeme

namespace Lexer

theorem takes_of_scanLineEnd {text : List Char} {scan : Scan}
    (h : scanLineEnd text = some scan) : scan.Takes text := by
  obtain ⟨⟨taken, rest⟩, hend, rfl⟩ := Option.map_eq_some_iff.1 h
  obtain ⟨whole, ne⟩ := append_of_lineEnd? hend
  exact Scan.takes_single whole ne

theorem takes_of_scanContinuation {text : List Char} {scan : Scan}
    (h : scanContinuation text = some scan) : scan.Takes text := by
  unfold scanContinuation at h
  split at h
  · obtain ⟨⟨taken, rest⟩, hend, rfl⟩ := Option.map_eq_some_iff.1 h
    obtain ⟨whole, -⟩ := append_of_lineEnd? hend
    exact Scan.takes_single (by simp [whole]) (by simp)
  · cases h

theorem takes_of_scanComment {lexer : Lexer} {text : List Char} {scan : Scan}
    (h : lexer.scanComment text = some scan) : scan.Takes text := by
  unfold scanComment at h
  split at h
  · split at h
    · exact takes_of_scanRun h
    · cases h
  · cases h

theorem takes_of_scanString {lexer : Lexer} {text : List Char} {scan : Scan}
    (h : lexer.scanString text = some scan) : scan.Takes text := by
  unfold scanString at h
  split at h
  · split at h
    · cases h
      exact takes_scanQuoted _ _
    · cases h
  · cases h

/-- Scanning takes at least one lexeme off a text, and loses nothing. -/
theorem takes_scan (lexer : Lexer) (c : Char) (text : List Char) :
    (lexer.scan c text).Takes (c :: text) := by
  unfold scan
  cases hfound : lexer.rules.findSome? (· (c :: text)) with
  | none => exact Scan.takes_single rfl (by simp)
  | some found =>
    rw [Option.getD_some]
    obtain ⟨rule, hrule, h⟩ := List.exists_of_findSome?_eq_some hfound
    simp only [rules, List.mem_cons, List.not_mem_nil, or_false] at hrule
    rcases hrule with rfl | rfl | rfl | rfl | rfl | rfl | rfl | rfl
    · exact takes_of_scanLineEnd h
    · exact takes_of_scanContinuation h
    · exact takes_of_scanRun h
    · exact takes_of_scanComment h
    · exact takes_of_scanString h
    · exact takes_of_scanWord h
    · exact takes_of_scanWord h
    · exact takes_of_scanRun h

-- ============================================================================
-- Whole texts
-- ============================================================================

/-- The lexemes of a text, in order. -/
def lexemes (lexer : Lexer) : List Char → List Lexeme
  | [] => []
  | c :: text =>
    let found := lexer.scan c text
    found.lexemes ++ lexer.lexemes found.rest
termination_by text => text.length
decreasing_by exact (lexer.takes_scan c text).length_rest_lt

theorem lexemes_nil (lexer : Lexer) : lexer.lexemes [] = [] := by rw [lexemes]

theorem lexemes_cons (lexer : Lexer) (c : Char) (text : List Char) :
    lexer.lexemes (c :: text) =
      (lexer.scan c text).lexemes ++ lexer.lexemes (lexer.scan c text).rest := by
  rw [lexemes]

/-- The lexemes of a text make it up. -/
theorem flatMap_lexemes (lexer : Lexer) (text : List Char) :
    (lexer.lexemes text).flatMap Lexeme.text = text := by
  fun_induction lexer.lexemes text with
  | case1 => rfl
  | case2 c text found ih =>
    rw [List.flatMap_append, ih]
    exact (lexer.takes_scan c text).whole

/-- No lexeme is empty. -/
theorem ne_nil_of_mem_lexemes {lexer : Lexer} {text : List Char} {lexeme : Lexeme}
    (h : lexeme ∈ lexer.lexemes text) : lexeme.text ≠ [] := by
  fun_induction lexer.lexemes text with
  | case1 => cases h
  | case2 c text found ih =>
    rcases List.mem_append.1 h with h | h
    · exact (lexer.takes_scan c text).ne_nil lexeme h
    · exact ih h

end Lexer

end TokenGrammar
