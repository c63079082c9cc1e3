/-
Evaluation of terms under an assignment. Integers are 64-bit words and overflow is an error; all
other arithmetic, and every order comparison, is done in doubles. Connectives stop at the operand
that decides them, so an error in a later operand may go unseen.
-/
import RoadPolicy.Formula.Term
import RoadPolicy.Number.Nearest

namespace RoadPolicy

/-- The 64-bit integer of a given value, if there is one. -/
def int64? (n : Int) : Option Int64 :=
  if Int64.minValue.toInt ≤ n ∧ n ≤ Int64.maxValue.toInt then some (Int64.ofInt n) else none

/-- Ground values. -/
inductive Scalar where
  | bool (b : Bool)
  | int (n : Int64)
  | real (x : Float)

/-- Values for constants. -/
abbrev Assignment := Dict Scalar

/-- Why a term has no value. -/
inductive EvalError where
  | unbound (name : String)
  | divisionByZero
  | quantifier
  | sortMismatch (expected found : TermSort)
  | overflow
deriving DecidableEq, Repr

/-- The wording of an error. -/
def EvalError.message : EvalError → String
  | unbound name => "constant '" ++ name ++ "' has no value in the assignment"
  | divisionByZero => "division by zero"
  | quantifier => "quantified terms cannot be evaluated directly"
  | sortMismatch expected found =>
    "sort mismatch: expected " ++ expected.text ++ ", found " ++ found.text
  | overflow => "integer overflow"

namespace Scalar

def sort : Scalar → TermSort
  | bool _ => .bool
  | int _ => .int
  | real _ => .real

/-- The truth value of a scalar. -/
def truth : Scalar → Except EvalError Bool
  | bool b => .ok b
  | s => .error (.sortMismatch .bool s.sort)

/-- The scalar as a double. -/
def number : Scalar → Except EvalError Float
  | int n => .ok (floatOfInt n.toInt)
  | real x => .ok x
  | bool b => .error (.sortMismatch .real (bool b).sort)

end Scalar

namespace Arith

def onInts : Arith → Int → Int → Int
  | add, m, n => m + n
  | sub, m, n => m - n
  | mul, m, n => m * n

def onFloats : Arith → Float → Float → Float
  | add, x, y => x + y
  | sub, x, y => x - y
  | mul, x, y => x * y

/-- Two integers stay integers, anything else is computed in doubles. -/
def apply (op : Arith) : Scalar → Scalar → Except EvalError Scalar
  | .int m, .int n =>
    match int64? (op.onInts m.toInt n.toInt) with
    | some k => .ok (.int k)
    | none => .error .overflow
  | s, t => do
    let x ← s.number
    let y ← t.number
    return .real (op.onFloats x y)

end Arith

namespace Comparison

def onFloats : Comparison → Float → Float → Bool
  | lt, x, y => decide (x < y)
  | le, x, y => decide (x ≤ y)
  | gt, x, y => decide (y < x)
  | ge, x, y => decide (y ≤ x)

end Comparison

namespace Scalar

/-- The quotient of two scalars in doubles; neither zero can divide. -/
def quotient (x y : Float) : Except EvalError Scalar :=
  if y == 0.0 then .error .divisionByZero else .ok (real (x / y))

def negated : Scalar → Except EvalError Scalar
  | int n =>
    match int64? (-n.toInt) with
    | some k => .ok (int k)
    | none => .error .overflow
  | real x => .ok (real (-x))
  | bool b => .error (.sortMismatch .real (bool b).sort)

/-- Truth values and integers are compared as such, anything else in doubles. -/
def equal : Scalar → Scalar → Except EvalError Bool
  | bool p, bool q => .ok (p == q)
  | int m, int n => .ok (m == n)
  | s, t => do
    let x ← s.number
    let y ← t.number
    return x == y

end Scalar

namespace Term

/-- The value of an integer literal: a 64-bit integer or, past these, the nearest double. -/
def intValue (n : Int) : Scalar :=
  match int64? n with
  | some k => .int k
  | none => .real (floatOfInt n)

mutual

/-- The value of a term. -/
def eval (env : Assignment) : Term → Except EvalError Scalar
  | const name _ =>
    match env.get? name with
    | some s => .ok s
    | none => .error (.unbound name)
  | bool b => .ok (.bool b)
  | int n => .ok (intValue n)
  | real q => .ok (.real (nearestFloat q))
  | arith op a b => do
    let s ← a.eval env
    let t ← b.eval env
    op.apply s t
  | div a b => do
    let x ← (← a.eval env).number
    let y ← (← b.eval env).number
    Scalar.quotient x y
  | neg a => do (← a.eval env).negated
  | ite c a b => do
    let p ← (← c.eval env).truth
    if p then a.eval env else b.eval env
  | eq a b => do
    let s ← a.eval env
    let t ← b.eval env
    return .bool (← s.equal t)
  | compare op a b => do
    let x ← (← a.eval env).number
    let y ← (← b.eval env).number
    return .bool (op.onFloats x y)
  | junction j ts => evalJunction env j ts
  | not a => do
    let p ← (← a.eval env).truth
    return .bool !p
  | implies a b => do
    let p ← (← a.eval env).truth
    if p then
      let q ← (← b.eval env).truth
      return .bool q
    else return .bool true
  | quantified _ _ _ => .error .quantifier

/-- The value of a junction: the operands from left to right, up to the first that decides it. -/
def evalJunction (env : Assignment) (j : Junction) : List Term → Except EvalError Scalar
  | [] => .ok (.bool j.unit)
  | t :: ts => do
    let p ← (← t.eval env).truth
    if p = j.unit then evalJunction env j ts else return .bool !j.unit

end

@[simp] theorem eval_junction (env : Assignment) (j : Junction) (ts : List Term) :
    (junction j ts).eval env = evalJunction env j ts := by rw [eval]

@[simp] theorem evalJunction_nil (env : Assignment) (j : Junction) : evalJunction env j [] = .ok (.bool j.unit) := by
  rw [evalJunction]

/-- The truth value of a formula. -/
def holds (env : Assignment) (t : Term) : Except EvalError Bool := do
  (← t.eval env).truth

end Term

end RoadPolicy
