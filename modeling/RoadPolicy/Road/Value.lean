/-
Values: everything that a name in a policy can denote.
-/
import RoadPolicy.Formula.SExpr
import RoadPolicy.Road.Object
import RoadPolicy.Road.Relation

namespace RoadPolicy

/-- What a name denotes. -/
inductive Value where
  /-- A formula or a number. -/
  | term (t : Term)
  | point (p : Point)
  | line (l : Line)
  | area (a : Area)
  | lane (l : Lane)
  | object (o : TrafficObject)

/-- The kinds of values, as operators tell them apart. -/
inductive ValueKind where
  | boolean
  | number
  | point
  | line
  | area
  | lane
  | object (kind : ObjectKind)
deriving DecidableEq, Repr

def ValueKind.text : ValueKind → String
  | boolean => "boolean"
  | number => "number"
  | point => "point"
  | line => "line"
  | area => "area"
  | lane => "lane"
  | object kind => kind.label ++ " object"

namespace Value

def kind : Value → ValueKind
  | term t => if t.sort = .bool then .boolean else .number
  | point _ => .point
  | line _ => .line
  | area _ => .area
  | lane _ => .lane
  | object o => .object o.kind

/-- The value as text: a term in the solver language, an object by its name, anything else by its
kind. -/
def text : Value → String
  | term t => t.text
  | object o => o.name
  | v => v.kind.text

/-- The value as a figure. -/
def figure? : Value → Option Figure
  | point p => some (.point p)
  | line l => some (.line l)
  | area a => some (.area a)
  | _ => none

def object? : Value → Option TrafficObject
  | object o => some o
  | _ => none

end Value

end RoadPolicy
