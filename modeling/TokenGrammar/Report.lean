/-
  TokenGrammar.Report

  What a user is told about an error: what went wrong, what to say at the place
  where it did, and perhaps what else may help.
-/

namespace TokenGrammar

/-- The parts of an error report. -/
structure Report where
  title : String
  label : String
  note : Option String
  deriving DecidableEq, Repr

end TokenGrammar
