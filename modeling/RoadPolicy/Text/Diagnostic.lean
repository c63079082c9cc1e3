/-
Diagnostics: what a user is shown of an error. A code names the class of the error; labels mark
stretches of the source, each with a note or without.
-/
import RoadPolicy.Text.Span

namespace RoadPolicy

/-- An error as it is shown. -/
structure Diagnostic where
  code : String
  message : String
  help : Option String := none
  labels : List (Span × Option String) := []
deriving DecidableEq, Repr

end RoadPolicy
