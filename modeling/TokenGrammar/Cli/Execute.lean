/-
  TokenGrammar.Cli.Execute

  The command line with the services that it is run with.
-/
import TokenGrammar.Cli.Invoke
import TokenGrammar.Cli.Occurrences

namespace TokenGrammar.Cli

/-- Options are taken where they stand first.  A report shows the lines that it is about, and
    breaks off in an empty text, which has none.  At the terminal nothing is typed. -/
def Services.standard : Services where
  arguments := .firstOccurrence
  breaksOff text _ := text.isEmpty
  session _ _ _ _ := ⟨[], .completed⟩

/-- Do what some arguments ask for, in a folder. -/
def execute (read : FileReader) (folder : String) (arguments : List String) : Execution :=
  Services.standard.execute read folder arguments

/-- The paths of the files that some arguments ask for. -/
def paths (folder : String) (arguments : List String) : List String :=
  Services.standard.paths folder arguments

end TokenGrammar.Cli
