/-
  TokenGrammar.Main

  The command line.
-/
import TokenGrammar.Cli.Execute

open TokenGrammar.Cli

/-- Read a file, or tell why it cannot be read. -/
def readText (path : String) : IO (Except ReadError String) := do
  try
    match String.fromUTF8? (← IO.FS.readBinFile path) with
    | some text => return .ok text
    | none => return .error .notText
  catch
    | .noFileOrDirectory .. => return .error .missing
    | .invalidArgument .. => return .error .nameTooLong
    | .inappropriateType _ code _ =>
      return .error (if code = 21 then .isAFolder else .notAFolder)
    | error => throw error

/-- Tell something. -/
def printOutput : Output → IO Unit
  | .text text => IO.print text
  | .warning message => IO.eprintln ("warning: " ++ message)
  | .report path report => do
    IO.eprintln ("Error: " ++ report.title)
    IO.eprintln ("  in " ++ path ++ ": " ++ report.label)
    if let some note := report.note then
      IO.eprintln ("  note: " ++ note)

/-- Do what the arguments ask for in the working directory. -/
def main (arguments : List String) : IO UInt32 := do
  let folder := (← IO.currentDir).toString
  let texts ← (paths folder arguments).mapM fun path => return (path, ← readText path)
  let read : FileReader := fun path => (texts.lookup path).getD (.error .missing)
  let execution := execute read folder arguments
  execution.outputs.forM printOutput
  if let some error := execution.error? then
    IO.eprint error.shown
  return execution.exitCode.toUInt32
