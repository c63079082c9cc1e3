/-
Reports: a counterexample by objects. A constant named after an object is filed under the kind and
the id of that object, every other one under its own name among the common values.
-/
import RoadPolicy.Formula.Model
import RoadPolicy.Road.Object

namespace RoadPolicy

/-- The kinds of objects that a report lists, in the order of their labels. -/
def reportedKinds : List ObjectKind :=
  [.crosswalk, .pedestrian, .stopSign, .trafficLight, .vehicle, .yieldSign]

/-- Where a value is filed: the kind and the id of an object, and one of its fields. -/
structure FilePlace where
  kind : ObjectKind
  id : String
  field : String
deriving DecidableEq, Repr

/-- What is left of a list after a given start. -/
def dropStart? : List Char → List Char → Option (List Char)
  | [], rest => some rest
  | _ :: _, [] => none
  | c :: cs, d :: ds => if c = d then dropStart? cs ds else none

/-- The id and the field in what follows a label: an underscore, letters and digits, another
underscore, and the field, which has no line break. -/
def idAndField? (rest : List Char) : Option (String × String) :=
  match rest with
  | '_' :: rest =>
    let id := rest.takeWhile Char.isAlphanum
    match rest.dropWhile Char.isAlphanum with
    | '_' :: field =>
      if id.isEmpty || field.isEmpty || field.contains '\n' then none
      else some (String.ofList id, String.ofList field)
    | _ => none
  | _ => none

/-- Where the value of a constant is filed, if its name is that of a field of an object. -/
def filePlace? (name : String) : Option FilePlace :=
  reportedKinds.findSome? fun kind =>
    match dropStart? kind.label.toList name.toList with
    | none => none
    | some rest => (idAndField? rest).map fun p => ⟨kind, p.1, p.2⟩

/-- The fields of the objects of one kind, by their ids. -/
abbrev Bucket := Dict (Dict Scalar)

/-- A counterexample. -/
structure Report where
  common : Dict Scalar
  bucket : ObjectKind → Bucket

namespace Report

def empty : Report := ⟨.empty, fun _ => .empty⟩

/-- The report with one more field of an object. -/
def fileField (r : Report) (place : FilePlace) (value : Scalar) : Report :=
  let fields := ((r.bucket place.kind).get? place.id).getD .empty
  let bucket := (r.bucket place.kind).insert place.id (fields.insert place.field value)
  { r with bucket := fun kind => if kind = place.kind then bucket else r.bucket kind }

/-- The report with the value of one more constant. -/
def file (r : Report) (name : String) (value : Scalar) : Report :=
  match filePlace? name with
  | some place => r.fileField place value
  | none => { r with common := r.common.insert name value }

/-- All values of a model. -/
def ofModel (m : Model) : Report :=
  m.entries.foldl (fun r e => r.file e.1 e.2.toScalar) empty

/-- The value of a field. -/
def field? (r : Report) (kind : ObjectKind) (id field : String) : Option Scalar :=
  ((r.bucket kind).get? id).bind (·.get? field)

/-- How many objects have fields. -/
def objectCount (r : Report) : Nat :=
  reportedKinds.foldl (fun n k => n + (r.bucket k).size) 0

def isEmpty (r : Report) : Bool := r.common.isEmpty && r.objectCount == 0

end Report

end RoadPolicy
