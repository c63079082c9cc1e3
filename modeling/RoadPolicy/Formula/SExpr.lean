/-
S-expressions and the solver language written in them. A term is first laid out as a tree of atoms,
then printed; a script declares the free constants of its formulas and asserts them.
-/
import RoadPolicy.Formula.Term

namespace RoadPolicy

/-- An atom or a list of S-expressions. -/
inductive SExpr where
  | atom (text : String)
  | list (items : List SExpr)
deriving Repr

namespace SExpr

mutual

/-- Items stand in parentheses, separated by one space. -/
def text : SExpr → String
  | atom s => s
  | list items => "(" ++ textItems items ++ ")"

def textItems : List SExpr → String
  | [] => ""
  | [e] => e.text
  | e :: f :: rest => e.text ++ " " ++ textItems (f :: rest)

end

/-- A list that starts with an atom. -/
def app (head : String) (args : List SExpr) : SExpr := list (atom head :: args)

end SExpr

/-! ## Symbols -/

/-- The characters, besides letters and digits, of a symbol that needs no quotes. -/
def symbolMarks : List Char := "~!@$%^&*_-+=<>.?/".toList

/-- A symbol that needs no quotes: it is not empty, starts with no digit and holds only letters,
digits and marks. -/
def isPlainSymbol (name : String) : Bool :=
  match name.toList with
  | [] => false
  | c :: cs =>
    !c.isDigit && (c :: cs).all fun d => d.isAlphanum || symbolMarks.contains d

/-- A name as a symbol of the solver language; within quotes a bar becomes an underscore. -/
def symbolText (name : String) : String :=
  if isPlainSymbol name then name
  else "|" ++ name.map (fun c => if c == '|' then '_' else c) ++ "|"

/-! ## Terms -/

def Arith.text : Arith → String
  | add => "+"
  | sub => "-"
  | mul => "*"

def Comparison.text : Comparison → String
  | lt => "<"
  | le => "<="
  | gt => ">"
  | ge => ">="

def Junction.text : Junction → String
  | conj => "and"
  | disj => "or"

def Quantifier.text : Quantifier → String
  | all => "forall"
  | some => "exists"

namespace SExpr

def ofBool (b : Bool) : SExpr := atom (if b then "true" else "false")

/-- A number with a sign: a negative one is the negation of its absolute value. -/
def signed (negative : Bool) (magnitude : String) : SExpr :=
  if negative then app "-" [atom magnitude] else atom magnitude

def ofInt (n : Int) : SExpr := signed (n < 0) (toString n.natAbs)

/-- A real literal is written with a point; a fraction is a quotient of two of them. -/
def ofRat (q : Rat) : SExpr :=
  let num := signed (q.num < 0) (toString q.num.natAbs ++ ".0")
  if q.den = 1 then num else app "/" [num, atom (toString q.den ++ ".0")]

def ofBinder (b : Binder) : SExpr := list [atom (symbolText b.name), atom b.sort.text]

end SExpr

namespace Term

mutual

/-- A term in the solver language. A junction of no formulas is written as its truth value. -/
def toSExpr : Term → SExpr
  | const name _ => .atom (symbolText name)
  | bool b => .ofBool b
  | int n => .ofInt n
  | real q => .ofRat q
  | arith op a b => .app op.text [a.toSExpr, b.toSExpr]
  | div a b => .app "/" [a.toSExpr, b.toSExpr]
  | neg a => .app "-" [a.toSExpr]
  | ite c a b => .app "ite" [c.toSExpr, a.toSExpr, b.toSExpr]
  | eq a b => .app "=" [a.toSExpr, b.toSExpr]
  | compare op a b => .app op.text [a.toSExpr, b.toSExpr]
  | junction j [] => .ofBool j.unit
  | junction j (t :: ts) => .app j.text (t.toSExpr :: toSExprs ts)
  | not a => .app "not" [a.toSExpr]
  | implies a b => .app "=>" [a.toSExpr, b.toSExpr]
  | quantified q binders body =>
    .app q.text [.list (binders.map SExpr.ofBinder), body.toSExpr]

def toSExprs : List Term → List SExpr
  | [] => []
  | t :: ts => t.toSExpr :: toSExprs ts

end

/-- The text of a term in the solver language. -/
def text (t : Term) : String := t.toSExpr.text

end Term

/-! ## Scripts -/

/-- The free constants of all formulas. Of two sorts for one name, that of the last formula
counts. -/
def declarations (formulas : List Term) : Dict TermSort :=
  formulas.foldl (fun d f => d.union f.freeConsts) .empty

/-- The lines of a script: declarations in the order of their names, one assertion for each formula,
and the two commands that ask for an answer. -/
def scriptLines (formulas : List Term) : List SExpr :=
  (declarations formulas).entries.map
      (fun e => .app "declare-const" [.atom (symbolText e.1), .atom e.2.text]) ++
    formulas.map (fun f => .app "assert" [f.toSExpr]) ++
    [.app "check-sat" [], .app "get-model" []]

/-- A complete script. -/
def script (formulas : List Term) : String :=
  String.join ((scriptLines formulas).map fun e => e.text ++ "\n")

end RoadPolicy
