/-
  TokenGrammar.Cli.Folder

  File names and the folder that they belong to.
-/

namespace TokenGrammar.Cli

/-- The path of a file that is named from within a folder.  A name that begins
    at the root of the file system is a path of its own. -/
def joinPath (folder name : String) : String :=
  if name.startsWith "/" then name
  else if folder.endsWith "/" then folder ++ name
  else folder ++ "/" ++ name

/-- Why a file cannot be read. -/
inductive ReadError where
  | missing
  | notAFolder
  | isAFolder
  | nameTooLong
  | notText
  deriving DecidableEq, Repr

/-- The reason in words, with its number if the system has one for it. -/
def ReadError.message : ReadError → String
  | .missing => "No such file or directory (os error 2)"
  | .notAFolder => "Not a directory (os error 20)"
  | .isAFolder => "Is a directory (os error 21)"
  | .nameTooLong => "File name too long (os error 36)"
  | .notText => "stream did not contain valid UTF-8"

/-- The most bytes that a name of a file or folder may have. -/
def nameLimit : Nat := 255

/-- The most bytes that a path may have. -/
def pathLimit : Nat := 4095

/-- Why nothing is found under a name that no file or folder has. -/
def ReadError.notFound (name : String) : ReadError :=
  if nameLimit < name.utf8ByteSize then .nameTooLong else .missing

/-- A folder that holds texts by their names, and no other folders. -/
structure Folder where
  path : String
  texts : List (String × String)
  deriving DecidableEq, Repr

namespace Folder

/-- Read what some steps outside of the folder lead to.  Steps without names
    lead to a folder again, and nothing else is there. -/
def readOutside (steps : List String) : Except ReadError String :=
  match steps.find? fun step => !(["", ".", ".."].contains step) with
  | none => .error .isAFolder
  | some name => .error (.notFound name)

/-- Read the file that some steps lead to, beginning in the folder.  A step may
    be empty or a point, and then leads nowhere else. -/
def readSteps (folder : Folder) : List String → Except ReadError String
  | [] => .error .isAFolder
  | step :: rest =>
    if step = "" || step = "." then folder.readSteps rest
    else if step = ".." then readOutside rest
    else
      match folder.texts.lookup step with
      | none => .error (.notFound step)
      | some text => if rest.isEmpty then .ok text else .error .notAFolder

/-- Read the file at a path.  Nothing outside the folder can be read. -/
def read (folder : Folder) (path : String) : Except ReadError String :=
  let root := folder.path ++ "/"
  if pathLimit < path.utf8ByteSize then .error .nameTooLong
  else if path.startsWith root then
    folder.readSteps ((path.drop root.length).toString.splitToList (· == '/'))
  else readOutside (path.splitToList (· == '/'))

end Folder

end TokenGrammar.Cli
