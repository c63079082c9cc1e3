/-
Simplification: nested conjunctions and disjunctions are flattened, truth values are folded away and
double negations are dropped. Arithmetic is left as it is.
-/
import RoadPolicy.Formula.Term

namespace RoadPolicy

namespace Junction

/-- A junction of simplified operands, none of which is a truth value: with no operand it is its
unit, with one it is that operand. -/
def close (j : Junction) : List Term → Term
  | [] => .bool j.unit
  | [t] => t
  | t :: u :: ts => .junction j (t :: u :: ts)

/-- What a simplified operand adds to a junction: a truth value adds nothing or decides the junction
(`none`), a junction of the same kind adds its operands. -/
def operands (j : Junction) : Term → Option (List Term)
  | .bool b => if b = j.unit then some [] else none
  | .junction k ts => if k = j then some ts else some [.junction k ts]
  | t => some [t]

end Junction

namespace Term

/-- The negation of a simplified term. -/
def negated : Term → Term
  | bool b => bool !b
  | not a => a
  | t => not t

/-- The implication between simplified terms. -/
def implied : Term → Term → Term
  | bool false, _ => bool true
  | _, bool true => bool true
  | bool true, b => b
  | a, b => implies a b

/-- The choice between simplified terms. -/
def chosen : Term → Term → Term → Term
  | bool true, a, _ => a
  | bool false, _, b => b
  | c, a, b => ite c a b

/-- A quantifier over a simplified body. A truth value needs no quantifier. -/
def bound (q : Quantifier) (binders : List Binder) : Term → Term
  | bool b => bool b
  | body => quantified q binders body

mutual

/-- The simplified term. -/
def simplify : Term → Term
  | const name s => const name s
  | bool b => bool b
  | int n => int n
  | real q => real q
  | arith op a b => arith op a.simplify b.simplify
  | div a b => div a.simplify b.simplify
  | neg a => neg a.simplify
  | ite c a b => chosen c.simplify a.simplify b.simplify
  | eq a b => eq a.simplify b.simplify
  | compare op a b => compare op a.simplify b.simplify
  | junction j ts =>
    match simplifyOperands j ts with
    | some us => j.close us
    | none => bool !j.unit
  | not a => a.simplify.negated
  | implies a b => a.simplify.implied b.simplify
  | quantified q binders body => body.simplify.bound q binders

/-- The operands of a junction, simplified and flattened; `none` if one of them decides it. -/
def simplifyOperands (j : Junction) : List Term → Option (List Term)
  | [] => some []
  | t :: ts =>
    match j.operands t.simplify with
    | none => none
    | some us => (simplifyOperands j ts).map (us ++ ·)

end

end Term

end RoadPolicy
