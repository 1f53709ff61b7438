/-
  TokenGrammar.Proofs.Cli.Inputs

  Many inputs.  The command line matches its input files one after the other with one
  trace and one count of those that did not match.  All the same, what it tells about a file
  depends on the path and the text of that file only, and on the grammar and on how inputs
  are matched (`Manner.told`): the trace is cleared in between, and a match that is traced
  comes out as one that is not.

  Two things end the command line before its last file: a file that cannot be read, and an
  empty file that does not match, if the report on it breaks off for want of lines to show
  (`Services.ReportsNeedLines`).

  Main statement: `inputs_are_told_one_by_one`.
-/

import TokenGrammar.Cli.Execute
import TokenGrammar.Proofs.Match.Memories

namespace TokenGrammar.Cli

-- ============================================================================
-- What is told
-- ============================================================================

/-- What an output adds to the standard output. -/
def Output.text? : Output → Option String
  | .text content => some content
  | .warning _ | .report _ _ => none

/-- The report that an output is, and the path of the file that it is about. -/
def Output.report? : Output → Option (String × Report)
  | .report path content => some (path, content)
  | .text _ | .warning _ => none

namespace Execution

/-- The standard output. -/
def stdout (execution : Execution) : String :=
  String.join (execution.outputs.filterMap Output.text?)

/-- The reports, each with the path of the file that it is about. -/
def reports (execution : Execution) : List (String × Report) :=
  execution.outputs.filterMap Output.report?

end Execution

/-- An input: a path, and the text of the file there. -/
structure Input where
  path : String
  text : String
  deriving DecidableEq, Repr

/-- How inputs are matched, whichever they are. -/
structure Manner where
  comment : Option String
  options : Options
  showEvents : Bool

/-- How the inputs of a call are matched. -/
def Invocation.manner (invocation : Invocation) : Manner :=
  ⟨invocation.comment, invocation.options, invocation.showEvents⟩

namespace Manner

/-- The lexer for inputs. -/
def lexer (manner : Manner) (grammar : Grammar) : Lexer :=
  match manner.comment with
  | some opening => grammar.lexer.withLineComment opening
  | none => grammar.lexer

/-- What matching a text by itself comes to. -/
def outcome (manner : Manner) (grammar : Grammar) (text : String) : Outcome :=
  (grammar.parse (manner.lexer grammar) text manner.options .acceptAll ()).outcome

/-- The events of matching a text by itself. -/
def events (manner : Manner) (grammar : Grammar) (text : String) : List (Context × Event) :=
  (grammar.parse (manner.lexer grammar) text manner.options Listener.acceptAll.recording
    ((), [])).events

/-- Whether a text matches. -/
def Matches (manner : Manner) (grammar : Grammar) (text : String) : Prop :=
  manner.outcome grammar text = .success

instance (manner : Manner) (grammar : Grammar) (text : String) :
    Decidable (manner.Matches grammar text) :=
  inferInstanceAs (Decidable (_ = _))

/-- The lines that an input has on the standard output. -/
def lines (manner : Manner) (grammar : Grammar) (input : Input) : List String :=
  (if manner.showEvents then Trace.linesFor (manner.events grammar input.text) else []) ++
    if manner.Matches grammar input.text then [input.path ++ ": ok"] else []

/-- What an input has on the standard output. -/
def block (manner : Manner) (grammar : Grammar) (input : Input) : String :=
  String.join ((manner.lines grammar input).map (· ++ "\n"))

/-- The report on an input that does not match. -/
def reported? (manner : Manner) (grammar : Grammar) (input : Input) : Option (String × Report) :=
  (manner.outcome grammar input.text).report?.map (input.path, ·)

/-- All that is told about an input. -/
def told (manner : Manner) (grammar : Grammar) (input : Input) : List Output :=
  (manner.lines grammar input).map Output.line ++
    ((manner.reported? grammar input).map fun (path, report) => Output.report path report).toList

/-- How many of some inputs do not match.  An input that is there twice counts twice. -/
def missed (manner : Manner) (grammar : Grammar) (inputs : List Input) : Nat :=
  inputs.countP fun input => ¬manner.Matches grammar input.text

/-- Whether the report on an input has no line to show, and so breaks off. -/
def BreaksOff (manner : Manner) (grammar : Grammar) (input : Input) : Prop :=
  input.text = "" ∧ ¬manner.Matches grammar input.text

/-- Whether an execution tells about these inputs, each by itself and in this order, and
    about no others. -/
structure Tells (manner : Manner) (grammar : Grammar) (inputs : List Input)
    (execution : Execution) : Prop where
  stdout_eq : execution.stdout = String.join (inputs.map (manner.block grammar))
  reports_eq : execution.reports = inputs.filterMap (manner.reported? grammar)

end Manner

/-- A report shows the lines that it is about, so that it breaks off exactly if it is about an
    empty text. -/
def Services.ReportsNeedLines (services : Services) : Prop :=
  ∀ text report, services.breaksOff text report = true ↔ text = ""

-- ============================================================================
-- More outputs
-- ============================================================================

namespace Execution

theorem outputs_after (outputs : List Output) (execution : Execution) :
    (execution.after outputs).outputs = outputs ++ execution.outputs := rfl

theorem after_after (outputs more : List Output) (execution : Execution) :
    (execution.after more).after outputs = execution.after (outputs ++ more) := by
  rw [after, after, after, List.append_assoc]

end Execution

namespace Manner

variable {manner : Manner} {grammar : Grammar}

theorem matches_iff {text : String} :
    manner.Matches grammar text ↔ (manner.outcome grammar text).report? = none := by
  unfold Matches
  rcases manner.outcome grammar text with _ | diagnostic | diagnostic
  · exact iff_of_true rfl rfl
  · exact iff_of_false (fun h => nomatch h) fun h => nomatch h
  · exact iff_of_false (fun h => nomatch h) fun h => nomatch h

/-- A text that does not match is reported. -/
theorem exists_report_of_fails {text : String} (h : ¬manner.Matches grammar text) :
    ∃ report, (manner.outcome grammar text).report? = some report :=
  Option.ne_none_iff_exists'.1 (mt matches_iff.2 h)

theorem missed_append (inputs more : List Input) :
    manner.missed grammar (inputs ++ more) =
      manner.missed grammar inputs + manner.missed grammar more :=
  List.countP_append

theorem missed_ne_zero_iff {inputs : List Input} :
    manner.missed grammar inputs ≠ 0 ↔ ∃ input ∈ inputs, ¬manner.Matches grammar input.text := by
  simp [missed]

theorem missed_of_matches {input : Input} (h : manner.Matches grammar input.text) :
    manner.missed grammar [input] = 0 :=
  List.countP_eq_zero.2 fun other hother => by simpa [List.mem_singleton.1 hother] using h

theorem missed_of_fails {input : Input} (h : ¬manner.Matches grammar input.text) :
    manner.missed grammar [input] = 1 := by
  simp [missed, h]

/-- What is told about an input adds its block to the standard output. -/
theorem filterMap_text?_told (input : Input) :
    (manner.told grammar input).filterMap Output.text? =
      (manner.lines grammar input).map (· ++ "\n") := by
  have hreport : (((manner.reported? grammar input).map
      fun (path, report) => Output.report path report).toList).filterMap Output.text? = [] := by
    rcases manner.reported? grammar input with _ | reported
    · rfl
    · rfl
  rw [told, List.filterMap_append, hreport, List.append_nil, List.filterMap_map]
  exact congrFun List.filterMap_eq_map _

theorem filterMap_report?_told (input : Input) :
    (manner.told grammar input).filterMap Output.report? =
      (manner.reported? grammar input).toList := by
  have hlines : ((manner.lines grammar input).map Output.line).filterMap Output.report? = [] := by
    rw [List.filterMap_map]
    exact List.filterMap_eq_nil_iff.2 fun _ _ => rfl
  rw [told, List.filterMap_append, hlines, List.nil_append]
  rcases manner.reported? grammar input with _ | reported
  · rfl
  · rfl

/-- Blocks are joined line by line. -/
theorem join_blocks (inputs : List Input) :
    String.join (inputs.flatMap fun input => (manner.lines grammar input).map (· ++ "\n")) =
      String.join (inputs.map (manner.block grammar)) := by
  induction inputs with
  | nil => rfl
  | cons input inputs ih =>
      rw [List.flatMap_cons, String.join_append, ih, List.map_cons, String.join_cons, block]

/-- Warnings are neither on the standard output nor reports. -/
theorem filterMap_warnings {β : Type} {part? : Output → Option β} (path : String)
    (rules : RuleTable) (h : ∀ message, part? (.warning message) = none) :
    (warnings path rules).filterMap part? = [] := by
  unfold warnings
  dsimp only
  split
  · simp [h]
  · simp [h]

/-- An execution tells about the inputs whose outputs it has behind the warnings about the
    grammar. -/
theorem tells_of_outputs_eq (path : String) {inputs : List Input} {execution : Execution}
    (h : execution.outputs =
      warnings path grammar.rules ++ inputs.flatMap (manner.told grammar)) :
    manner.Tells grammar inputs execution := by
  constructor
  · rw [Execution.stdout, h, List.filterMap_append, filterMap_warnings _ _ fun _ => rfl,
      List.nil_append, List.filterMap_flatMap, ← join_blocks]
    simp only [filterMap_text?_told]
  · rw [Execution.reports, h, List.filterMap_append, filterMap_warnings _ _ fun _ => rfl,
      List.nil_append, List.filterMap_flatMap, List.filterMap_eq_flatMap_toList]
    simp only [filterMap_report?_told]

end Manner

-- ============================================================================
-- Inputs one after the other
-- ============================================================================

section

variable {services : Services} {read : FileReader} {folder : String} {invocation : Invocation}
  {grammar : Grammar}

theorem inputLexer_eq (invocation : Invocation) (grammar : Grammar) :
    inputLexer invocation grammar = invocation.manner.lexer grammar := rfl

/-- Matching a text with a trace, whatever the trace has from before. -/
theorem matchText_eq (trace : Trace) (input : Input) :
    ∃ after, matchText invocation grammar (inputLexer invocation grammar) trace input.path
        input.text =
      ((invocation.manner.lines grammar input).map Output.line,
        (invocation.manner.outcome grammar input.text).report?, after) := by
  rw [inputLexer_eq]
  let result := grammar.parse (invocation.manner.lexer grammar) input.text invocation.options
    Trace.listener trace.clear
  obtain ⟨houtcome, hlines⟩ := grammar.rules.matchFrom_trace invocation.options
    ((invocation.manner.lexer grammar).tokenize input.text).reader trace.clear
  have hresult : result.outcome = invocation.manner.outcome grammar input.text := houtcome
  have htrace : result.memory.lines =
      Trace.linesFor (invocation.manner.events grammar input.text) := hlines
  have hevents : (if invocation.showEvents then result.memory.lines.map Output.line else []) =
      (if invocation.manner.showEvents then
        Trace.linesFor (invocation.manner.events grammar input.text) else []).map Output.line := by
    rw [htrace, apply_ite (List.map Output.line), List.map_nil]
    rfl
  refine ⟨result.memory, ?_⟩
  rw [Manner.lines, List.map_append, ← hevents, matchText, hresult]
  by_cases hmatches : invocation.manner.Matches grammar input.text
  · rw [if_pos hmatches, Manner.matches_iff.1 hmatches]
    rfl
  · obtain ⟨report, hreport⟩ := Manner.exists_report_of_fails hmatches
    rw [if_neg hmatches, hreport, List.map_nil, List.append_nil]

/-- An input whose report does not break off is told about by itself, and the inputs behind
    it are matched. -/
theorem matchFiles_cons_of_ok (hlines : services.ReportsNeedLines) {name : String} {input : Input}
    (hpath : joinPath folder name = input.path) (hread : read input.path = .ok input.text)
    (hfull : ¬invocation.manner.BreaksOff grammar input) (trace : Trace) (failures : Nat)
    (rest : List String) :
    ∃ after,
      services.matchFiles read folder invocation grammar (inputLexer invocation grammar) trace
          failures (name :: rest) =
        (services.matchFiles read folder invocation grammar (inputLexer invocation grammar) after
          (failures + invocation.manner.missed grammar [input]) rest).after
            (invocation.manner.told grammar input) := by
  obtain ⟨after, hmatch⟩ := @matchText_eq invocation grammar trace input
  refine ⟨after, ?_⟩
  rw [Services.matchFiles, hpath]
  dsimp only
  rw [hread]
  dsimp only
  rw [hmatch, Manner.told, Manner.reported?]
  dsimp only
  by_cases hmatches : invocation.manner.Matches grammar input.text
  · rw [Manner.matches_iff.1 hmatches, Manner.missed_of_matches hmatches, Option.map_none,
      Option.map_none, Option.toList_none, List.append_nil]
    rfl
  · obtain ⟨report, hreport⟩ := Manner.exists_report_of_fails hmatches
    have htold : ¬services.breaksOff input.text report = true := fun hbreaks =>
      hfull ⟨(hlines _ _).1 hbreaks, hmatches⟩
    rw [hreport, Manner.missed_of_fails hmatches]
    dsimp only
    rw [Services.report, if_neg htold, Execution.after_after]
    rfl

/-- Nothing is told about a file that cannot be read, nor behind it. -/
theorem matchFiles_cons_of_error {name : String} {error : ReadError}
    (hread : read (joinPath folder name) = .error error) (trace : Trace) (failures : Nat)
    (rest : List String) :
    services.matchFiles read folder invocation grammar (inputLexer invocation grammar) trace
        failures (name :: rest) =
      .ofError ⟨"couldn't read " ++ joinPath folder name, some error.message⟩ := by
  rw [Services.matchFiles, hread]

/-- An input whose report breaks off is told about, and nothing behind it. -/
theorem matchFiles_cons_of_breaksOff (hlines : services.ReportsNeedLines) {name : String}
    {input : Input} (hpath : joinPath folder name = input.path) (hread : read input.path = .ok input.text)
    (hbreaks : invocation.manner.BreaksOff grammar input) (trace : Trace) (failures : Nat)
    (rest : List String) :
    services.matchFiles read folder invocation grammar (inputLexer invocation grammar) trace
        failures (name :: rest) =
      ⟨invocation.manner.told grammar input, .brokenOff⟩ := by
  obtain ⟨after, hmatch⟩ := @matchText_eq invocation grammar trace input
  obtain ⟨hempty, hmatches⟩ := hbreaks
  obtain ⟨report, hreport⟩ := Manner.exists_report_of_fails hmatches
  rw [Services.matchFiles, hpath]
  dsimp only
  rw [hread]
  dsimp only
  rw [hmatch, Manner.told, Manner.reported?, hreport]
  dsimp only
  rw [Services.report, if_pos ((hlines _ _).2 hempty)]
  rfl

/-- Readable inputs are told about one by one, as long as no report breaks off. -/
theorem matchFiles_append (hlines : services.ReportsNeedLines) {names : List String}
    {inputs : List Input} (hpaths : names.map (joinPath folder) = inputs.map Input.path)
    (hread : ∀ input ∈ inputs, read input.path = .ok input.text)
    (hfull : ∀ input ∈ inputs, ¬invocation.manner.BreaksOff grammar input) (trace : Trace)
    (failures : Nat) (rest : List String) :
    ∃ after,
      services.matchFiles read folder invocation grammar (inputLexer invocation grammar) trace
          failures (names ++ rest) =
        (services.matchFiles read folder invocation grammar (inputLexer invocation grammar) after
          (failures + invocation.manner.missed grammar inputs) rest).after
            (inputs.flatMap (invocation.manner.told grammar)) := by
  induction inputs generalizing names trace failures with
  | nil =>
      obtain rfl : names = [] := List.map_eq_nil_iff.1 hpaths
      exact ⟨trace, rfl⟩
  | cons input inputs ih =>
      obtain ⟨name, names, rfl, hpath, hpaths⟩ := List.map_eq_cons_iff.1 hpaths
      obtain ⟨hinput, hothers⟩ := List.forall_mem_cons.1 hread
      obtain ⟨hfirst, hlater⟩ := List.forall_mem_cons.1 hfull
      obtain ⟨between, hstep⟩ :=
        matchFiles_cons_of_ok hlines hpath hinput hfirst trace failures (names ++ rest)
      obtain ⟨after, hrun⟩ := ih hpaths hothers hlater between
        (failures + invocation.manner.missed grammar [input])
      refine ⟨after, ?_⟩
      rw [List.cons_append, hstep, hrun, Execution.after_after, Nat.add_assoc,
        ← Manner.missed_append]
      rfl

end

-- ============================================================================
-- Calls
-- ============================================================================

/-- A call whose grammar compiles matches its files. -/
theorem execute_of_compile {services : Services} {read : FileReader} {folder : String}
    {arguments : List String} {invocation : Invocation} {source : String} {grammar : Grammar}
    (harguments : services.arguments.read arguments = .ok (.matching invocation))
    (hsource : read (joinPath folder invocation.grammar) = .ok source)
    (hgrammar : Grammar.compile source = .ok grammar) :
    services.execute read folder arguments =
      (services.matchFiles read folder invocation grammar (inputLexer invocation grammar) .empty 0
        invocation.files).after
          (warnings (joinPath folder invocation.grammar) grammar.rules) := by
  rw [Services.execute, harguments]
  dsimp only
  rw [Services.invoke, hsource]
  dsimp only
  rw [hgrammar]

/-- Let some arguments ask to match files with a grammar that compiles, however they are to
    be matched and however options are found among the arguments, and let reports break off
    for want of lines only.  Let the files at the beginning of these be readable, and no report
    on them break off.  Whatever the files are, and however often one of them is asked for:

    - If there are no further files, and no session follows, the standard output is made of
      one block for each file in order, and there is a report for every file that does not
      match, in order.  The exit code is zero exactly if all files match, and the error at the
      end counts the files that do not.
    - If the next file cannot be read, the blocks and reports are those of the files before
      it, and the call ends with the reason.
    - If the next file is empty and does not match, its block and its report follow, and
      the call breaks off.

    The block of a file and the report on it depend on nothing but its path, its text, the
    grammar and how inputs are matched. -/
theorem inputs_are_told_one_by_one (services : Services) (read : FileReader) (folder : String)
    (arguments : List String) (invocation : Invocation) (source : String) (grammar : Grammar)
    (inputs : List Input) (rest : List String) (hlines : services.ReportsNeedLines)
    (harguments : services.arguments.read arguments = .ok (.matching invocation))
    (hsource : read (joinPath folder invocation.grammar) = .ok source)
    (hgrammar : Grammar.compile source = .ok grammar)
    (hfiles : invocation.files.map (joinPath folder) = inputs.map Input.path ++ rest)
    (hread : ∀ input ∈ inputs, read input.path = .ok input.text)
    (hfull : ∀ input ∈ inputs, ¬invocation.manner.BreaksOff grammar input) :
    let execution := services.execute read folder arguments
    let manner := invocation.manner
    let missed := manner.missed grammar inputs
    (rest = [] → invocation.opensSession = false →
      manner.Tells grammar inputs execution ∧
      (execution.exitCode ≠ 0 ↔ ∃ input ∈ inputs, ¬manner.Matches grammar input.text) ∧
      execution.error? =
        if missed = 0 then none
        else some (.plain (toString missed ++ " input(s) did not match"))) ∧
    (∀ path later error, rest = path :: later → read path = .error error →
      manner.Tells grammar inputs execution ∧ execution.exitCode = 1 ∧
      execution.error? = some ⟨"couldn't read " ++ path, some error.message⟩) ∧
    (∀ input later, rest = input.path :: later → read input.path = .ok input.text →
      manner.BreaksOff grammar input →
      manner.Tells grammar (inputs ++ [input]) execution ∧ execution.exitCode = 101 ∧
      execution.error? = none) := by
  intro execution manner missed
  obtain ⟨names, others, hnames, hpaths, hothers⟩ := List.map_eq_append_iff.1 hfiles
  obtain ⟨trace, hrun⟩ := matchFiles_append hlines hpaths hread hfull .empty 0 others
  rw [← hnames, Nat.zero_add] at hrun
  have hexecution : execution =
      ((services.matchFiles read folder invocation grammar (inputLexer invocation grammar) trace
        missed others).after (inputs.flatMap (manner.told grammar))).after
          (warnings (joinPath folder invocation.grammar) grammar.rules) := by
    rw [← hrun]
    exact execute_of_compile harguments hsource hgrammar
  have hmissed : missed ≠ 0 ↔ ∃ input ∈ inputs, ¬manner.Matches grammar input.text :=
    Manner.missed_ne_zero_iff
  refine ⟨?_, ?_, ?_⟩
  · rintro rfl hsession
    obtain rfl : others = [] := List.map_eq_nil_iff.1 hothers
    rw [Services.matchFiles, hsession, if_neg Bool.false_ne_true, finishFiles] at hexecution
    rw [hexecution]
    by_cases hall : missed = 0
    · rw [if_pos hall, if_pos hall]
      refine ⟨Manner.tells_of_outputs_eq (joinPath folder invocation.grammar) ?_, ?_, rfl⟩
      · rw [Execution.outputs_after, Execution.outputs_after, List.append_nil]
      · exact iff_of_false (fun h => h rfl) fun h => hmissed.2 h hall
    · rw [if_neg hall, if_neg hall]
      refine ⟨Manner.tells_of_outputs_eq (joinPath folder invocation.grammar) ?_, ?_, rfl⟩
      · rw [Execution.outputs_after, Execution.outputs_after, Execution.ofError, List.append_nil]
      · exact iff_of_true (fun h => nomatch h) (hmissed.1 hall)
  · rintro path later error rfl herror
    obtain ⟨name, others, rfl, rfl, -⟩ := List.map_eq_cons_iff.1 hothers
    rw [matchFiles_cons_of_error herror] at hexecution
    rw [hexecution]
    refine ⟨Manner.tells_of_outputs_eq (joinPath folder invocation.grammar) ?_, rfl, rfl⟩
    rw [Execution.outputs_after, Execution.outputs_after, Execution.ofError, List.append_nil]
  · rintro input later rfl hinput hbreaks
    obtain ⟨name, others, rfl, hpath, -⟩ := List.map_eq_cons_iff.1 hothers
    rw [matchFiles_cons_of_breaksOff hlines hpath hinput hbreaks] at hexecution
    rw [hexecution]
    refine ⟨Manner.tells_of_outputs_eq (joinPath folder invocation.grammar) ?_, rfl, rfl⟩
    rw [Execution.outputs_after, Execution.outputs_after, List.flatMap_append,
      List.flatMap_singleton]

-- ----------------------------------------------------------------------------
-- A word, a number and an empty file
-- ----------------------------------------------------------------------------

/-- A folder with the grammar `ROOT := ID`, a word, a number and an empty file. -/
def wordFolder : Folder where
  path := "/in"
  texts := [("g", "ROOT := ID"), ("word", "a"), ("number", "1"), ("empty", "")]

/-- The files of this folder: their names, and what is read for these. -/
def wordFiles : List (String × Input) :=
  [("g", ⟨"/in/g", "ROOT := ID"⟩), ("word", ⟨"/in/word", "a"⟩), ("number", ⟨"/in/number", "1"⟩),
    ("empty", ⟨"/in/empty", ""⟩)]

theorem read_wordFiles : ∀ file ∈ wordFiles,
    joinPath "/in" file.1 = file.2.path ∧ wordFolder.read file.2.path = .ok file.2.text := by
  decide +kernel

theorem read_grammar : wordFolder.read (joinPath "/in" "g") = .ok "ROOT := ID" := by
  obtain ⟨hpath, hread⟩ := read_wordFiles ("g", ⟨"/in/g", "ROOT := ID"⟩) (.head _)
  rw [hpath]
  exact hread

theorem read_inputs (files : List (String × Input)) (h : files ⊆ wordFiles) :
    (files.map Prod.fst).map (joinPath "/in") = (files.map Prod.snd).map Input.path ∧
      ∀ input ∈ files.map Prod.snd, wordFolder.read input.path = .ok input.text := by
  rw [List.map_map, List.map_map]
  refine ⟨List.map_congr_left fun file hfile => (read_wordFiles file (h hfile)).1, ?_⟩
  exact List.forall_mem_map.2 fun file hfile => (read_wordFiles file (h hfile)).2

/-- The grammar `ROOT := ID`. -/
def wordGrammar : Grammar :=
  .ofRules ⟨[⟨rootName, [.terminal .plain ⟨8, 10⟩ (.ofCategory .identifier)], ⟨0, 10⟩⟩], by decide⟩

theorem compile_wordGrammar : Grammar.compile "ROOT := ID" = .ok wordGrammar := by decide +kernel

theorem reportsNeedLines_standard : Services.standard.ReportsNeedLines :=
  fun _ _ => String.isEmpty_iff

/-- The call that matches some of these files. -/
def wordInvocation (showEvents : Bool) (files : List String) : Invocation :=
  ⟨"g", none, .default, showEvents, false, files⟩

/-- How these files are matched. -/
def wordManner (showEvents : Bool) : Manner := ⟨none, .default, showEvents⟩

theorem manner_wordInvocation (showEvents : Bool) (files : List String) :
    (wordInvocation showEvents files).manner = wordManner showEvents := rfl

/-- A word matches, and is told about between the beginning and the end of `ROOT`. -/
theorem matches_word (showEvents : Bool) :
    let manner := wordManner showEvents
    manner.Matches wordGrammar "a" ∧
      manner.events wordGrammar "a" =
        [(⟨[rootName], 0⟩, .enter rootName),
          (⟨[rootName], 2⟩, .token ⟨.identifier, "a", ⟨0, 1⟩, 1⟩),
          (⟨[rootName], 2⟩, .leave rootName)] := by
  intro manner
  have houtcome : (wordGrammar.parse wordGrammar.lexer "a" .default .acceptAll ()).outcome =
      .success := RuleTable.eq_of_map_matchWithin Result.outcome 10 (by decide +kernel)
  have hevents : (wordGrammar.parse wordGrammar.lexer "a" .default Listener.acceptAll.recording
      ((), [])).events = [(⟨[rootName], 0⟩, .enter rootName),
        (⟨[rootName], 2⟩, .token ⟨.identifier, "a", ⟨0, 1⟩, 1⟩),
        (⟨[rootName], 2⟩, .leave rootName)] :=
    RuleTable.eq_of_map_matchWithin Result.events 10 (by decide +kernel)
  exact ⟨houtcome, hevents⟩

/-- A text that begins with no word fails at once. -/
theorem fails_of_no_word (showEvents : Bool) {text : String} (h : text = "1" ∨ text = "") :
    let manner := wordManner showEvents
    ¬manner.Matches wordGrammar text ∧
      manner.events wordGrammar text = [(⟨[rootName], 0⟩, .enter rootName)] := by
  intro manner
  have hreport : (wordGrammar.parse wordGrammar.lexer text .default .acceptAll
      ()).outcome.report?.isSome = true := by
    rcases h with rfl | rfl
    · exact RuleTable.eq_of_map_matchWithin (·.outcome.report?.isSome) 10 (by decide +kernel)
    · exact RuleTable.eq_of_map_matchWithin (·.outcome.report?.isSome) 10 (by decide +kernel)
  have hevents : (wordGrammar.parse wordGrammar.lexer text .default Listener.acceptAll.recording
      ((), [])).events = [(⟨[rootName], 0⟩, .enter rootName)] := by
    rcases h with rfl | rfl
    · exact RuleTable.eq_of_map_matchWithin Result.events 10 (by decide +kernel)
    · exact RuleTable.eq_of_map_matchWithin Result.events 10 (by decide +kernel)
  exact ⟨fun hmatches => Option.isSome_iff_ne_none.1 hreport (Manner.matches_iff.1 hmatches),
    hevents⟩

theorem block_word :
    (wordManner true).block wordGrammar ⟨"/in/word", "a"⟩ =
      "ROOT \x7b\n  identifier \"a\" @1\n\x7d ROOT\n/in/word: ok\n" := by
  obtain ⟨hmatches, hevents⟩ := matches_word true
  rw [Manner.block, Manner.lines, hevents, if_pos hmatches]
  rfl

theorem block_number :
    (wordManner true).block wordGrammar ⟨"/in/number", "1"⟩ = "ROOT \x7b\n" := by
  obtain ⟨hfails, hevents⟩ := fails_of_no_word true (.inl rfl)
  rw [Manner.block, Manner.lines, hevents, if_neg hfails]
  rfl

/-- The word has the same block before and behind the number, which does not match and is
    counted once. -/
theorem word_is_told_behind_number_as_before :
    let execution := execute wordFolder.read "/in"
      ["--grammar", "g", "--events", "word", "number", "word"]
    let word := "ROOT \x7b\n  identifier \"a\" @1\n\x7d ROOT\n/in/word: ok\n"
    execution.stdout = word ++ "ROOT \x7b\n" ++ word ∧ execution.exitCode ≠ 0 ∧
      execution.error? = some (.plain "1 input(s) did not match") := by
  intro execution word
  let inputs : List Input := [⟨"/in/word", "a"⟩, ⟨"/in/number", "1"⟩, ⟨"/in/word", "a"⟩]
  have hnumber := (fails_of_no_word true (.inl rfl)).1
  obtain ⟨hfiles, hread⟩ := read_inputs
    [("word", ⟨"/in/word", "a"⟩), ("number", ⟨"/in/number", "1"⟩), ("word", ⟨"/in/word", "a"⟩)]
    (by simp [wordFiles])
  have hfull : ∀ input ∈ inputs, ¬(wordManner true).BreaksOff wordGrammar input := by
    simp [inputs, Manner.BreaksOff]
  have hmissed : (wordManner true).missed wordGrammar inputs = 1 := by
    simp [Manner.missed, inputs, (matches_word true).1, hnumber]
  obtain ⟨htells, hexit, herror⟩ := (inputs_are_told_one_by_one .standard wordFolder.read "/in"
    ["--grammar", "g", "--events", "word", "number", "word"]
    (wordInvocation true ["word", "number", "word"]) "ROOT := ID" wordGrammar inputs []
    reportsNeedLines_standard
    rfl read_grammar compile_wordGrammar hfiles hread hfull).1 rfl rfl
  rw [manner_wordInvocation] at htells hexit herror
  refine ⟨?_, hexit.2 ⟨⟨"/in/number", "1"⟩, by simp [inputs], hnumber⟩, ?_⟩
  · have hstdout : execution.stdout = _ := htells.stdout_eq
    rw [hstdout, List.map_cons, List.map_cons, List.map_cons, List.map_nil, block_word,
      block_number]
    rfl
  · have hmessage : execution.error? = _ := herror
    rw [hmessage, hmissed]
    rfl

/-- An empty file that does not match: the word behind it is not matched, and nobody is told
    how many files do not match, although all files can be read. -/
theorem empty_input_hides_word :
    let arguments := ["--grammar", "g", "empty", "word"]
    let invocation := wordInvocation false ["empty", "word"]
    let inputs : List Input := [⟨"/in/empty", ""⟩, ⟨"/in/word", "a"⟩]
    let execution := execute wordFolder.read "/in" arguments
    Services.standard.arguments.read arguments = .ok (.matching invocation) ∧
    invocation.opensSession = false ∧
    wordFolder.read (joinPath "/in" invocation.grammar) = .ok "ROOT := ID" ∧
    Grammar.compile "ROOT := ID" = .ok wordGrammar ∧
    invocation.files.map (joinPath "/in") = inputs.map Input.path ∧
    (∀ input ∈ inputs, wordFolder.read input.path = .ok input.text) ∧
    String.join (inputs.map (invocation.manner.block wordGrammar)) = "/in/word: ok\n" ∧
    execution.stdout = "" ∧
    invocation.manner.missed wordGrammar inputs = 1 ∧ execution.error? = none := by
  intro arguments invocation inputs execution
  have hempty := (fails_of_no_word false (.inr rfl)).1
  have hnoLines : (wordManner false).lines wordGrammar ⟨"/in/empty", ""⟩ = [] := by
    rw [Manner.lines, if_neg hempty]
    rfl
  have hline : (wordManner false).lines wordGrammar ⟨"/in/word", "a"⟩ = ["/in/word: ok"] := by
    rw [Manner.lines, if_pos (matches_word false).1]
    rfl
  have hmissed : (wordManner false).missed wordGrammar inputs = 1 := by
    simp [Manner.missed, inputs, (matches_word false).1, hempty]
  obtain ⟨hpaths, hread⟩ := read_inputs
    [("empty", ⟨"/in/empty", ""⟩), ("word", ⟨"/in/word", "a"⟩)] (by simp [wordFiles])
  have hbreaks : (wordManner false).BreaksOff wordGrammar ⟨"/in/empty", ""⟩ := ⟨rfl, hempty⟩
  have hrun := matchFiles_cons_of_breaksOff reportsNeedLines_standard
    (List.cons_eq_cons.1 hpaths).1 (hread _ (.head _))
    (show invocation.manner.BreaksOff _ _ from hbreaks) .empty 0 ["word"]
  have harguments : Services.standard.arguments.read arguments = .ok (.matching invocation) := rfl
  have hexecution : execution = _ :=
    execute_of_compile harguments read_grammar compile_wordGrammar
  rw [show invocation.files = ["empty", "word"] from rfl, hrun] at hexecution
  have htells : (wordManner false).Tells wordGrammar [⟨"/in/empty", ""⟩] execution := by
    refine Manner.tells_of_outputs_eq (joinPath "/in" "g") ?_
    rw [hexecution, List.flatMap_singleton]
    rfl
  refine ⟨harguments, rfl, read_grammar, compile_wordGrammar, hpaths, hread, ?_, ?_,
    hmissed, ?_⟩
  · show String.join (inputs.map ((wordManner false).block wordGrammar)) = _
    simp only [inputs, Manner.block, List.map_cons, List.map_nil, hnoLines, hline]
    rfl
  · rw [htells.stdout_eq, List.map_singleton, Manner.block, hnoLines]
    rfl
  · rw [hexecution]
    rfl

end TokenGrammar.Cli
