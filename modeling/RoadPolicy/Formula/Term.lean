/-
Formulas and arithmetic terms, as they are handed to a solver: constants, exact literals, linear
and nonlinear arithmetic, comparisons, Boolean connectives and quantifiers.
-/
import RoadPolicy.Dict

namespace RoadPolicy

/-- The sorts of terms. -/
inductive TermSort where
  | bool | int | real
deriving DecidableEq, Repr

def TermSort.text : TermSort → String
  | bool => "Bool"
  | int => "Int"
  | real => "Real"

/-- Arithmetic that stays in the integers when both operands are integers. -/
inductive Arith where
  | add | sub | mul
deriving DecidableEq, Repr

/-- The order comparisons. -/
inductive Comparison where
  | lt | le | gt | ge
deriving DecidableEq, Repr

/-- Conjunction and disjunction of any number of formulas. -/
inductive Junction where
  | conj | disj
deriving DecidableEq, Repr

/-- The value of a junction of no formulas; an operand with this value changes nothing. -/
def Junction.unit : Junction → Bool
  | conj => true
  | disj => false

inductive Quantifier where
  | all | some
deriving DecidableEq, Repr

/-- A bound variable. -/
structure Binder where
  name : String
  sort : TermSort
deriving DecidableEq, Repr

/-- Terms. -/
inductive Term where
  /-- A constant, free or bound by a quantifier around it. -/
  | const (name : String) (sort : TermSort)
  | bool (value : Bool)
  | int (value : Int)
  | real (value : Rat)
  | arith (op : Arith) (a b : Term)
  /-- Division of real numbers. -/
  | div (a b : Term)
  | neg (a : Term)
  | ite (c a b : Term)
  | eq (a b : Term)
  | compare (op : Comparison) (a b : Term)
  | junction (j : Junction) (ts : List Term)
  | not (a : Term)
  | implies (a b : Term)
  | quantified (q : Quantifier) (binders : List Binder) (body : Term)
deriving BEq, Repr, Inhabited

namespace Term

/-! ## Building terms -/

instance : Add Term := ⟨arith .add⟩

instance : Sub Term := ⟨arith .sub⟩

instance : Mul Term := ⟨arith .mul⟩

instance : Div Term := ⟨div⟩

instance : Neg Term := ⟨neg⟩

def realConst (name : String) : Term := const name .real

def boolConst (name : String) : Term := const name .bool

def and (ts : List Term) : Term := junction .conj ts

def or (ts : List Term) : Term := junction .disj ts

def lt (a b : Term) : Term := compare .lt a b

def le (a b : Term) : Term := compare .le a b

def gt (a b : Term) : Term := compare .gt a b

def ge (a b : Term) : Term := compare .ge a b

def ne (a b : Term) : Term := not (eq a b)

/-- The absolute value: the term itself if it is not negative, else its negation. -/
def abs (a : Term) : Term := ite (a.ge (int 0)) a (-a)

def square (a : Term) : Term := a * a

def forAll (binders : List Binder) (body : Term) : Term := quantified .all binders body

def thereIs (binders : List Binder) (body : Term) : Term := quantified .some binders body

def boolLit? : Term → Option Bool
  | bool b => some b
  | _ => none

/-! ## Sorts -/

/-- The sort of a term. Arithmetic on integers is an integer, with a real operand it is real. -/
def sort : Term → TermSort
  | const _ s => s
  | bool _ => .bool
  | int _ => .int
  | real _ => .real
  | arith _ a b => if a.sort = .int ∧ b.sort = .int then .int else .real
  | div _ _ => .real
  | neg a => a.sort
  | ite _ a b =>
    match a.sort, b.sort with
    | .int, .real => .real
    | s, _ => s
  | eq _ _ => .bool
  | compare _ _ _ => .bool
  | junction _ _ => .bool
  | not _ => .bool
  | implies _ _ => .bool
  | quantified _ _ _ => .bool

/-! ## Constants -/

mutual

/-- The occurrences of constants that no quantifier binds, from left to right; `bound` are the names
bound outside. -/
def freeOccurrences (bound : List String) : Term → List (String × TermSort)
  | const name s => if name ∈ bound then [] else [(name, s)]
  | bool _ => []
  | int _ => []
  | real _ => []
  | arith _ a b => a.freeOccurrences bound ++ b.freeOccurrences bound
  | div a b => a.freeOccurrences bound ++ b.freeOccurrences bound
  | neg a => a.freeOccurrences bound
  | ite c a b => c.freeOccurrences bound ++ a.freeOccurrences bound ++ b.freeOccurrences bound
  | eq a b => a.freeOccurrences bound ++ b.freeOccurrences bound
  | compare _ a b => a.freeOccurrences bound ++ b.freeOccurrences bound
  | junction _ ts => freeOccurrencesAll bound ts
  | not a => a.freeOccurrences bound
  | implies a b => a.freeOccurrences bound ++ b.freeOccurrences bound
  | quantified _ binders body => body.freeOccurrences (bound ++ binders.map (·.name))

def freeOccurrencesAll (bound : List String) : List Term → List (String × TermSort)
  | [] => []
  | t :: ts => t.freeOccurrences bound ++ freeOccurrencesAll bound ts

end

/-- The free constants with their sorts. Of two sorts for one name, the rightmost occurrence
counts. -/
def freeConsts (t : Term) : Dict TermSort := Dict.ofList (t.freeOccurrences [])

mutual

/-- The term and all its parts, each before its own parts. -/
def subterms : Term → List Term
  | const n s => [const n s]
  | bool b => [bool b]
  | int n => [int n]
  | real q => [real q]
  | arith op a b => arith op a b :: (a.subterms ++ b.subterms)
  | div a b => div a b :: (a.subterms ++ b.subterms)
  | neg a => neg a :: a.subterms
  | ite c a b => ite c a b :: (c.subterms ++ a.subterms ++ b.subterms)
  | eq a b => eq a b :: (a.subterms ++ b.subterms)
  | compare op a b => compare op a b :: (a.subterms ++ b.subterms)
  | junction j ts => junction j ts :: subtermsAll ts
  | not a => not a :: a.subterms
  | implies a b => implies a b :: (a.subterms ++ b.subterms)
  | quantified q binders body => quantified q binders body :: body.subterms

def subtermsAll : List Term → List Term
  | [] => []
  | t :: ts => t.subterms ++ subtermsAll ts

end

def constName? : Term → Option String
  | const name _ => some name
  | _ => none

/-- The names of all constants that occur, free or bound, in order and without repetition. -/
def constNames (t : Term) : List String :=
  (Dict.ofList (t.subterms.filterMap fun s => s.constName?.map (·, ()))).keys

mutual

/-- No quantifier occurs. -/
def quantifierFree : Term → Bool
  | const _ _ => true
  | bool _ => true
  | int _ => true
  | real _ => true
  | arith _ a b => a.quantifierFree && b.quantifierFree
  | div a b => a.quantifierFree && b.quantifierFree
  | neg a => a.quantifierFree
  | ite c a b => c.quantifierFree && a.quantifierFree && b.quantifierFree
  | eq a b => a.quantifierFree && b.quantifierFree
  | compare _ a b => a.quantifierFree && b.quantifierFree
  | junction _ ts => quantifierFreeAll ts
  | not a => a.quantifierFree
  | implies a b => a.quantifierFree && b.quantifierFree
  | quantified _ _ _ => false

def quantifierFreeAll : List Term → Bool
  | [] => true
  | t :: ts => t.quantifierFree && quantifierFreeAll ts

end

end Term

end RoadPolicy
