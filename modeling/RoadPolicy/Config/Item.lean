/-
The values of a settings file, and how its lines build them up. A file has headers, which open
tables, and assignments, whose keys may be paths. No line may define a second time what another line
has defined, and no line reaches into a value that was written out in full.
-/
import RoadPolicy.Config.Moment

namespace RoadPolicy.Config

/-- What brought a table about. -/
inductive Origin where
  /-- A header of its own. -/
  | header
  /-- The header of a table inside it. -/
  | implied
  /-- The path of an assignment. -/
  | path
deriving DecidableEq, Repr

/-- A value. A number with a point or an exponent stays as it is spelt. -/
inductive Item where
  | text (s : String)
  | integer (n : Int)
  | float (spelling : String)
  | boolean (b : Bool)
  | moment (m : Moment)
  | list (items : List Item)
  /-- A table written out in full. -/
  | record (fields : List (String × Item))
  | table (origin : Origin) (fields : List (String × Item))
  /-- Tables under one repeated header. -/
  | tables (rows : List (List (String × Item)))
deriving Repr, Inhabited

/-- The entries of a table in the order of their definition. -/
abbrev Fields := List (String × Item)

namespace Item

/-- The entries of a table. -/
def fields? : Item → Option Fields
  | record fields => some fields
  | table _ fields => some fields
  | _ => none

/-- The elements of a list. -/
def items? : Item → Option (List Item)
  | list items => some items
  | tables rows => some (rows.map (table .header))
  | _ => none

/-- A list or table with nothing in it. -/
def isEmpty (i : Item) : Bool :=
  match i.fields?, i.items? with
  | some fields, _ => fields.isEmpty
  | _, some items => items.isEmpty
  | _, _ => false

end Item

namespace Fields

def get? (fields : Fields) (key : String) : Option Item := List.lookup key fields

/-- A new entry at the end. -/
def push (fields : Fields) (key : String) (i : Item) : Fields := fields ++ [(key, i)]

/-- Another value for a key. -/
def replace (fields : Fields) (key : String) (i : Item) : Fields :=
  fields.map fun e => if e.1 == key then (key, i) else e

/-- Changes the last row. -/
def mapLast (f : Fields → Option Fields) (rows : List Fields) : Option (List Fields) := do
  let last ← rows.getLast?
  return rows.dropLast ++ [← f last]

/-- Assigns a value to a key that is not defined yet. On the way a path makes the tables that are
missing; it does not enter a table that has a header, and the table it ends in has to be one that
paths made. -/
def assign (fields : Fields) (path : List String) (key : String) (i : Item) : Option Fields :=
  match path with
  | [] => if (fields.get? key).isNone then some (fields.push key i) else none
  | first :: rest =>
    match fields.get? first with
    | none => do
      let inner ← assign [] rest key i
      return fields.push first (.table .path inner)
    | some (.table origin inner) => do
      guard (origin == .path || (origin == .implied && !rest.isEmpty))
      let inner ← assign inner rest key i
      return fields.replace first (.table origin inner)
    | some (.tables rows) => do
      guard (!rest.isEmpty)
      let rows ← mapLast (fun inner => assign inner rest key i) rows
      return fields.replace first (.tables rows)
    | some _ => none

/-- Changes the table at the path of a header: of a repeated header, the last table. Missing tables
are implied. -/
def within (f : Fields → Option Fields) (fields : Fields) : List String → Option Fields
  | [] => f fields
  | first :: rest =>
    match fields.get? first with
    | none => do
      let inner ← within f [] rest
      return fields.push first (.table .implied inner)
    | some (.table origin inner) => do
      let inner ← within f inner rest
      return fields.replace first (.table origin inner)
    | some (.tables rows) => do
      let rows ← mapLast (fun inner => within f inner rest) rows
      return fields.replace first (.tables rows)
    | some _ => none

/-- Gives a table its header. -/
def openTable (key : String) (fields : Fields) : Option Fields :=
  match fields.get? key with
  | none => some (fields.push key (.table .header []))
  | some (.table .implied inner) => some (fields.replace key (.table .header inner))
  | some _ => none

/-- Adds a table under a repeated header. -/
def openRow (key : String) (fields : Fields) : Option Fields :=
  match fields.get? key with
  | none => some (fields.push key (.tables [[]]))
  | some (.tables rows) => some (fields.replace key (.tables (rows ++ [[]])))
  | some _ => none

end Fields

end RoadPolicy.Config
