/-
  TokenGrammar.Cli.Occurrences

  Options that may stand anywhere among the arguments.  Each is taken out of them
  where it stands first, and what is left are the names of files.  The value of
  an option is the argument behind it, or stands in the same argument behind an
  equals sign, as in `--grammar=<file>`.
-/
import TokenGrammar.Cli.Arguments

namespace TokenGrammar.Cli

/-- What is wrong if an option has no value. -/
def noValue (name : String) : String :=
  "the '" ++ name ++ "' option doesn't have an associated value"

/-- The value that is written behind an equals sign.  A quote at its beginning
    needs the same one at the end, and the two do not belong to the value.  The
    value is not empty. -/
def readAssigned : List Char → Option (List Char)
  | [] => none
  | c :: rest =>
    if c = '"' || c = '\'' then
      if rest.getLast? = some c && rest.dropLast ≠ [] then some rest.dropLast else none
    else some (c :: rest)

/-- The value in the argument behind the first occurrence of an option, whatever
    it is, and the arguments without the two. -/
def takeFollowing (name : String) : List String → Except String (Option String × List String)
  | [] => .ok (none, [])
  | argument :: rest =>
    if argument = name then
      match rest with
      | [] => .error (noValue name)
      | value :: rest => .ok (some value, rest)
    else do
      let (value, rest) ← takeFollowing name rest
      return (value, argument :: rest)

/-- The value in the first argument that assigns one to an option, and the
    arguments without it. -/
def takeAssigned (name : String) : List String → Except String (Option String × List String)
  | [] => .ok (none, [])
  | argument :: rest =>
    match (name ++ "=").toList.isPrefixOf? argument.toList with
    | some written =>
      match readAssigned written with
      | some value => .ok (some (String.ofList value), rest)
      | none => .error (noValue name)
    | none => do
      let (value, rest) ← takeAssigned name rest
      return (value, argument :: rest)

/-- The value of an option, and the arguments without the option.  One that stands
    by itself is preferred to one that is assigned its value, wherever they
    stand. -/
def takeFirstValue (name : String) (arguments : List String) :
    Except String (Option String × List String) :=
  if arguments.contains name then takeFollowing name arguments
  else takeAssigned name arguments

/-- Whether one of some flags is among the arguments, and the arguments without the
    first occurrence of the first of them that is. -/
def takeFirstFlag : List String → List String → Bool × List String
  | [], arguments => (false, arguments)
  | name :: names, arguments =>
    if arguments.contains name then (true, arguments.erase name)
    else takeFirstFlag names arguments

/-- Options are taken where they stand first. -/
def ArgumentReader.firstOccurrence : ArgumentReader where
  takeFlag := takeFirstFlag
  takeValue := takeFirstValue
  missing name := "the '" ++ name ++ "' option must be set"
  unreadable text reason := "failed to parse '" ++ text ++ "' cause " ++ reason
  files arguments := arguments

end TokenGrammar.Cli
