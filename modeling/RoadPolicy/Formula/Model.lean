/-
Models: what a solver answers for the constants of a satisfiable query.
-/
import RoadPolicy.Formula.Eval

namespace RoadPolicy

/-- A value in a model. -/
inductive ModelValue where
  | bool (b : Bool)
  | int (n : Int64)
  /-- A fraction as the solver wrote it; the denominator may be zero or negative. -/
  | fraction (num den : Int64)
deriving DecidableEq, Repr

/-- The value as a scalar. A fraction becomes the quotient of its rounded parts. -/
def ModelValue.toScalar : ModelValue → Scalar
  | bool b => .bool b
  | int n => .int n
  | fraction num den => .real (floatOfInt num.toInt / floatOfInt den.toInt)

/-- Values for constants, as a solver reports them. -/
abbrev Model := Dict ModelValue

/-- The model as an assignment, for evaluation. -/
def Model.toAssignment (m : Model) : Assignment := Dict.map ModelValue.toScalar m

end RoadPolicy
