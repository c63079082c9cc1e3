/-
Spaces: the names and formulas of a run stand in three of them, one for the scenario model, one for
the policy of the code and one for the properties of the user. A name without a space is looked up
in the code first, then in the model, then with the user.
-/
import RoadPolicy.Road.Value

namespace RoadPolicy

/-- The spaces. -/
inductive Space where
  | model | code | user
deriving DecidableEq, Repr

namespace Space

def all : List Space := [model, code, user]

def text : Space → String
  | model => "model"
  | code => "code"
  | user => "user"

def ofText? (text : String) : Option Space :=
  all.find? fun s => s.text == text

/-- The order in which a name is looked up. -/
def lookupOrder : List Space := [code, model, user]

end Space

/-- The contents of one space: names in their order, formulas in the order of their assertion. -/
structure SpaceTable where
  symbols : Dict Value
  formulas : List Term

/-- The contents of all spaces. -/
structure Registry where
  model : SpaceTable
  code : SpaceTable
  user : SpaceTable

namespace Registry

def empty : Registry := ⟨⟨.empty, []⟩, ⟨.empty, []⟩, ⟨.empty, []⟩⟩

/-- The contents of a space. -/
def table (r : Registry) : Space → SpaceTable
  | .model => r.model
  | .code => r.code
  | .user => r.user

/-- Changes the contents of a space. -/
def update (r : Registry) (space : Space) (f : SpaceTable → SpaceTable) : Registry :=
  match space with
  | .model => { r with model := f r.model }
  | .code => { r with code := f r.code }
  | .user => { r with user := f r.user }

/-- Binds a name in a space, over an older binding. -/
def define (r : Registry) (space : Space) (name : String) (value : Value) : Registry :=
  r.update space fun t => { t with symbols := t.symbols.insert name value }

/-- Binds names in a space, from first to last. -/
def defineAll (r : Registry) (space : Space) (bindings : List (String × Value)) : Registry :=
  bindings.foldl (fun r b => r.define space b.1 b.2) r

/-- Adds a formula to a space. -/
def assert (r : Registry) (space : Space) (formula : Term) : Registry :=
  r.update space fun t => { t with formulas := t.formulas ++ [formula] }

/-- Adds formulas to a space, from first to last. -/
def assertAll (r : Registry) (space : Space) (formulas : List Term) : Registry :=
  r.update space fun t => { t with formulas := t.formulas ++ formulas }

def formulas (r : Registry) (space : Space) : List Term := (r.table space).formulas

def symbols (r : Registry) (space : Space) : Dict Value := (r.table space).symbols

/-- What a name denotes in a space. -/
def lookupIn (r : Registry) (space : Space) (name : String) : Option Value :=
  (r.symbols space).get? name

/-- What a name denotes. -/
def lookup (r : Registry) (name : String) : Option Value :=
  Space.lookupOrder.findSome? fun space => r.lookupIn space name

/-- Some space defines the name. -/
def resolves (r : Registry) (name : String) : Bool := (r.lookup name).isSome

end Registry

end RoadPolicy
