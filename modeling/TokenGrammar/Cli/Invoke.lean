/-
  TokenGrammar.Cli.Invoke

  What the command line does: it compiles a grammar and matches input files with
  it, one after the other.  What it prints is a list of outputs, so that the
  outputs for a file can be told from those for the files before it.  What it
  leaves to others (options, the printing of reports, the terminal) are its
  `Services`.
-/
import TokenGrammar.Cli.Arguments
import TokenGrammar.Cli.Folder
import TokenGrammar.Match.Trace

namespace TokenGrammar.Cli

/-- Something that the command line tells. -/
inductive Output where
  /-- Text for the standard output. -/
  | text (text : String)
  /-- Something about the grammar that is probably not meant so. -/
  | warning (message : String)
  /-- The report of an error in the file at a path. -/
  | report (path : String) (report : Report)
  deriving DecidableEq, Repr

/-- A line for the standard output. -/
def Output.line (line : String) : Output := .text (line ++ "\n")

/-- How an execution ends. -/
inductive Finish where
  /-- All that was asked for is done, and nothing was wrong. -/
  | completed
  /-- An error is told at the end. -/
  | failed (error : Error)
  /-- A report could not be told in full, and nothing is done after it. -/
  | brokenOff
  deriving DecidableEq, Repr

/-- What the command line told before it ended, and how it ended. -/
structure Execution where
  outputs : List Output
  finish : Finish
  deriving DecidableEq, Repr

namespace Execution

/-- The error that is told at the end. -/
def error? (execution : Execution) : Option Error :=
  match execution.finish with
  | .failed error => some error
  | .completed | .brokenOff => none

/-- The exit code. -/
def exitCode (execution : Execution) : Nat :=
  match execution.finish with
  | .completed => 0
  | .failed _ => 1
  | .brokenOff => 101

/-- More outputs before those of an execution. -/
def after (outputs : List Output) (execution : Execution) : Execution :=
  { execution with outputs := outputs ++ execution.outputs }

/-- The end of an execution by an error. -/
def ofError (error : Error) : Execution := ⟨[], .failed error⟩

/-- An execution, and if all went well in it another one behind it. -/
def andThen (execution further : Execution) : Execution :=
  match execution.finish with
  | .completed => further.after execution.outputs
  | .failed _ | .brokenOff => execution

end Execution

/-- Reads the file at a path, or tells why it cannot. -/
abbrev FileReader := String → Except ReadError String

-- ============================================================================
-- What is left to others
-- ============================================================================

/-- What the command line leaves to others. -/
structure Services where
  /-- How options are found among the arguments. -/
  arguments : ArgumentReader
  /-- Whether the report of an error in a text breaks off while it is told. -/
  breaksOff : String → Report → Bool
  /-- A session at the terminal, in which what is typed is matched. -/
  session : Grammar → Lexer → Options → Bool → Execution

/-- The report of an error in a text, before the rest of an execution.  There is no rest if
    the report breaks off. -/
def Services.report (services : Services) (path text : String) (report : Report)
    (execution : Execution) : Execution :=
  if services.breaksOff text report then ⟨[.report path report], .brokenOff⟩
  else execution.after [.report path report]

-- ============================================================================
-- Input files
-- ============================================================================

/-- What is told about an input before any report on it, the report if the input does not
    match, and what becomes of the trace.  The lines that the trace has from an earlier
    input are forgotten first. -/
def matchText (invocation : Invocation) (grammar : Grammar) (lexer : Lexer) (trace : Trace)
    (path text : String) : List Output × Option Report × Trace :=
  let result := grammar.parse lexer text invocation.options Trace.listener trace.clear
  let trace := result.memory
  let events := if invocation.showEvents then trace.lines.map Output.line else []
  match result.outcome.report? with
  | none => (events ++ [.line (path ++ ": ok")], none, trace)
  | some report => (events, some report, trace)

/-- How an execution ends when `failures` inputs have not matched. -/
def finishFiles (failures : Nat) : Execution :=
  if failures = 0 then ⟨[], .completed⟩
  else .ofError (.plain (toString failures ++ " input(s) did not match"))

namespace Services

variable (services : Services)

/-- Match input files one after the other with one trace, where `failures` inputs before
    them did not match. -/
def matchFiles (read : FileReader) (folder : String) (invocation : Invocation)
    (grammar : Grammar) (lexer : Lexer) (trace : Trace) (failures : Nat) :
    List String → Execution
  | [] =>
    if invocation.opensSession then
      (services.session grammar lexer invocation.options invocation.showEvents).andThen
        (finishFiles failures)
    else finishFiles failures
  | name :: rest =>
    let path := joinPath folder name
    match read path with
    | .error error => .ofError ⟨"couldn't read " ++ path, some error.message⟩
    | .ok text =>
      let (outputs, report?, trace) := matchText invocation grammar lexer trace path text
      let further :=
        match report? with
        | none => matchFiles read folder invocation grammar lexer trace failures rest
        | some report =>
          services.report path text report
            (matchFiles read folder invocation grammar lexer trace (failures + 1) rest)
      further.after outputs

end Services

-- ============================================================================
-- The grammar
-- ============================================================================

/-- What is odd about a grammar: references to rules that do not exist, and no
    rule to begin with. -/
def warnings (path : String) (rules : RuleTable) : List Output :=
  let undefined := rules.undefinedRefs.map fun (rule, missing) =>
    Output.warning ("rule `" ++ rule ++ "` refers to `" ++ missing ++ "`, which is never defined")
  if rules.contains rootName then undefined
  else
    undefined ++
      [.warning (path ++ " has no `" ++ rootName ++ "` rule, so nothing can match")]

/-- The lexer for the input files. -/
def inputLexer (invocation : Invocation) (grammar : Grammar) : Lexer :=
  match invocation.comment with
  | some opening => grammar.lexer.withLineComment opening
  | none => grammar.lexer

namespace Services

variable (services : Services)

/-- Match the input files of an invocation. -/
def invoke (read : FileReader) (folder : String) (invocation : Invocation) : Execution :=
  let path := joinPath folder invocation.grammar
  match read path with
  | .error error => .ofError ⟨"couldn't read the grammar at " ++ path, some error.message⟩
  | .ok source =>
    match Grammar.compile source with
    | .error error =>
      services.report path source error.report (.ofError (.plain ("couldn't compile " ++ path)))
    | .ok grammar =>
      (services.matchFiles read folder invocation grammar (inputLexer invocation grammar) .empty 0
        invocation.files).after (warnings path grammar.rules)

/-- Do what some arguments ask for, in a folder. -/
def execute (read : FileReader) (folder : String) (arguments : List String) : Execution :=
  match services.arguments.read arguments with
  | .error error => .ofError error
  | .ok .help => ⟨[.text usage], .completed⟩
  | .ok (.matching invocation) => services.invoke read folder invocation

/-- The paths of the files that some arguments ask for. -/
def paths (folder : String) (arguments : List String) : List String :=
  match services.arguments.read arguments with
  | .ok (.matching invocation) => (invocation.grammar :: invocation.files).map (joinPath folder)
  | .ok .help | .error _ => []

end Services

end TokenGrammar.Cli
