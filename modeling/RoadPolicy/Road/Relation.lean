/-
Relations between sets of points, as quantified formulas over a fresh point: membership, inclusion
and intersection, and which of them two given figures can stand in.
-/
import RoadPolicy.Formula.Names
import RoadPolicy.Road.Geometry

namespace RoadPolicy

/-! ## Relations between sets -/

/-- The two coordinates of a point that is bound under a given name. -/
def Point.binders (name : String) : List Binder := [⟨name ++ "_l", .real⟩, ⟨name ++ "_s", .real⟩]

/-- A quantifier over a fresh point. -/
def quantifyPoint (q : Quantifier) (body : Point → Term) : Naming Term := do
  let name ← NameSupply.fresh "q"
  return .quantified q (Point.binders name) (body (.named name))

/-- A point belongs to a set: some point has its coordinates and is in the set. -/
def pointIn (p : Point) (set : Point → Term) : Naming Term :=
  quantifyPoint .some fun x => .and [.eq x.l p.l, .eq x.s p.s, set x]

/-- Every point of one set is a point of the other. -/
def includedIn (inner outer : Point → Term) : Naming Term :=
  quantifyPoint .all fun x => .implies (inner x) (outer x)

/-- Some point is in both sets. -/
def meets (a b : Point → Term) : Naming Term :=
  quantifyPoint .some fun x => .and [a x, b x]

/-! ## Relations between figures -/

/-- A point, a line or an area. -/
inductive Figure where
  | point (p : Point)
  | line (l : Line)
  | area (a : Area)

/-- What sort of figure it is. -/
inductive FigureKind where
  | point | line | area
deriving DecidableEq, Repr

def FigureKind.text : FigureKind → String
  | point => "point"
  | line => "line"
  | area => "area"

namespace Figure

def kind : Figure → FigureKind
  | point _ => .point
  | line _ => .line
  | area _ => .area

/-- The first figure lies in the second. A point can lie on a line or in an area, a line and an area
in an area. -/
def containment : Figure → Figure → Option (Naming Term)
  | point p, line l => some (pointIn p l.contains)
  | point p, area a => some (pointIn p a.contains)
  | line l, area a => some (includedIn l.contains a.contains)
  | area a, area b => some (includedIn a.contains b.contains)
  | point _, point _ => none
  | line _, point _ => none
  | line _, line _ => none
  | area _, point _ => none
  | area _, line _ => none

/-- The two figures have a point in common. Points cross nothing; of a line and an area the line
comes first. -/
def crossing : Figure → Figure → Option (Naming Term)
  | line a, line b => some (meets a.contains b.contains)
  | area a, area b => some (meets a.contains b.contains)
  | line l, area a => some (meets l.contains a.contains)
  | area a, line l => some (meets l.contains a.contains)
  | point _, _ => none
  | _, point _ => none

end Figure

end RoadPolicy
