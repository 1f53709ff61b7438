/-
  TokenGrammar.Cli.Arguments

  The arguments of the command line: which options it has, in which order they
  are taken out of the arguments, and what they ask for.  How an option is found
  among the arguments is up to an `ArgumentReader`.
-/
import TokenGrammar.Match.Run

namespace TokenGrammar.Cli

/-- How to use the command line. -/
def usage : String :=
  "usage: binred --grammar <file> [options] [input files...]\n" ++
  "\n" ++
  "options:\n" ++
  "  --comment <prefix>       treat <prefix> as a line comment in the inputs\n" ++
  "  --recursion-limit <n>    most rules that may be nested at once (default 1000)\n" ++
  "  --allow-trailing         don't require ROOT to consume the whole input\n" ++
  "  --events                 print every matching event\n" ++
  "  --repl                   match lines typed at the terminal (default without inputs)\n"

-- ============================================================================
-- Errors
-- ============================================================================

/-- Why the command line ends without success, and what that is due to. -/
structure Error where
  message : String
  cause : Option String
  deriving DecidableEq, Repr

namespace Error

/-- An error that is due to nothing else. -/
def plain (message : String) : Error := ⟨message, none⟩

/-- The error as it is printed. -/
def shown (error : Error) : String :=
  "Error: " ++ error.message ++ "\n" ++
    match error.cause with
    | some cause => "\nCaused by:\n    " ++ cause ++ "\n"
    | none => ""

end Error

-- ============================================================================
-- Numbers
-- ============================================================================

/-- Why a text is not a number. -/
inductive NumberError where
  | empty
  | invalidDigit
  | tooLarge
  deriving DecidableEq, Repr

/-- The reason in words. -/
def NumberError.message : NumberError → String
  | .empty => "cannot parse integer from empty string"
  | .invalidDigit => "invalid digit found in string"
  | .tooLarge => "number too large to fit in target type"

/-- The numbers up to this one, which does not belong to them, can be given. -/
def numberBound : Nat := Nat.pow 2 64

/-- The number that some decimal digits continue from `value`, digit by digit. -/
def readDigitsFrom (value : Nat) : List Char → Except NumberError Nat
  | [] => .ok value
  | c :: rest =>
    if c.isDigit then
      let value := value * 10 + (c.toNat - '0'.toNat)
      if value < numberBound then readDigitsFrom value rest else .error .tooLarge
    else .error .invalidDigit

/-- The number that a text writes in decimal digits, perhaps behind a plus
    sign. -/
def readNumber (text : String) : Except NumberError Nat :=
  match text.toList with
  | [] => .error .empty
  | ['+'] => .error .invalidDigit
  | '+' :: digits => readDigitsFrom 0 digits
  | digits => readDigitsFrom 0 digits

-- ============================================================================
-- What is asked for
-- ============================================================================

/-- What the command line is asked to do with its input files. -/
structure Invocation where
  grammar : String
  comment : Option String
  options : Options
  showEvents : Bool
  /-- Whether a session at the terminal is asked for. -/
  interactive : Bool
  files : List String
  deriving DecidableEq, Repr

/-- Whether a session follows the input files: if it is asked for, or if there are no files. -/
def Invocation.opensSession (invocation : Invocation) : Bool :=
  invocation.interactive || invocation.files.isEmpty

/-- What some arguments ask for. -/
inductive Request where
  /-- How to use the command line. -/
  | help
  /-- To match input files. -/
  | matching (invocation : Invocation)
  deriving DecidableEq, Repr

-- ============================================================================
-- Taking options out of the arguments
-- ============================================================================

/-- How options are found.  Each operation hands the arguments on as it leaves them, and says
    in words why it fails. -/
structure ArgumentReader where
  /-- Whether one of some flags is among the arguments. -/
  takeFlag : List String → List String → Bool × List String
  /-- The value of an option, if the option is among the arguments. -/
  takeValue : String → List String → Except String (Option String × List String)
  /-- What is wrong if an option is missing. -/
  missing : String → String
  /-- What is wrong with a value that cannot be read for some reason. -/
  unreadable : String → String → String
  /-- The names of files among the arguments that are left. -/
  files : List String → List String

namespace ArgumentReader

variable (reader : ArgumentReader)

/-- The value of the option that names the grammar.  Whoever leaves it out is
    told how to use the command line. -/
def takeGrammar (arguments : List String) : Except Error (String × List String) :=
  let required (reason : String) : Error := ⟨"a grammar is required\n\n" ++ usage, some reason⟩
  match reader.takeValue "--grammar" arguments with
  | .ok (some grammar, rest) => .ok (grammar, rest)
  | .ok (none, _) => .error (required (reader.missing "--grammar"))
  | .error reason => .error (required reason)

/-- The value of an option that may be left out. -/
def takeOption (name : String) (arguments : List String) :
    Except Error (Option String × List String) :=
  (reader.takeValue name arguments).mapError .plain

/-- The recursion limit that a text gives. -/
def readLimit (text : String) : Except Error Nat :=
  (readNumber text).mapError fun error => .plain (reader.unreadable text error.message)

/-- What some arguments ask for. -/
def read (arguments : List String) : Except Error Request := do
  let (asksForHelp, arguments) := reader.takeFlag ["-h", "--help"] arguments
  if asksForHelp then return .help
  let (grammar, arguments) ← reader.takeGrammar arguments
  let (comment, arguments) ← reader.takeOption "--comment" arguments
  let (limit, arguments) ← reader.takeOption "--recursion-limit" arguments
  let limit ← limit.mapM reader.readLimit
  let (allowTrailing, arguments) := reader.takeFlag ["--allow-trailing"] arguments
  let (showEvents, arguments) := reader.takeFlag ["--events"] arguments
  let (interactive, arguments) := reader.takeFlag ["--repl"] arguments
  let options : Options := ⟨limit.getD Options.default.recursionLimit, !allowTrailing⟩
  return .matching ⟨grammar, comment, options, showEvents, interactive, reader.files arguments⟩

end ArgumentReader

end TokenGrammar.Cli
