/-
The direct reading of a policy: what its tree means in an interpretation, by recursion on the tree
and without any formula. A leaf stands for an exact number, a truth value, a marker or what the
registry says; an operator makes of its operands what the table of the language says. The reading of
a spatial operator is a relation between sets of places.
-/
import RoadPolicy.Policy.Lowering
import RoadPolicy.Proofs.Language.PostOrder
import RoadPolicy.Proofs.Number.DecimalValue
import RoadPolicy.Proofs.Road.Relations

namespace RoadPolicy

/-- What an expression stands for. -/
inductive Reading where
  | truth (p : Prop)
  | number (q : Rat)
  /-- A point, a line, an area, a lane or an object. -/
  | value (v : Value)
  | marker (m : Marker)

namespace Reading

def truth? : Reading → Option Prop
  | truth p => some p
  | _ => none

def number? : Reading → Option Rat
  | number q => some q
  | _ => none

def figure? : Reading → Option Figure
  | value v => v.figure?
  | _ => none

def object? : Reading → Option TrafficObject
  | value v => v.object?
  | _ => none

/-- What a traffic light shows, or a number. -/
noncomputable def colorSignal? (I : Interpretation) : Reading → Option Rat
  | number q => some q
  | value (.object o) => o.color.map I.amount
  | _ => none

/-- The turn of a lane, or a number. -/
noncomputable def turnSignal? (I : Interpretation) : Reading → Option Rat
  | number q => some q
  | value (.lane l) => some (I.amount l.turn)
  | _ => none

/-- Equality of two truth values or of two numbers. -/
def equality? : Reading → Reading → Option Prop
  | truth p, truth q => some (p ↔ q)
  | number x, number y => some (x = y)
  | _, _ => none

/-- A comparison of two numbers. -/
def compared (r : Rat → Rat → Prop) (a b : Reading) : Option Reading :=
  a.number?.bind fun x => b.number?.map fun y => truth (r x y)

/-- A number made of two numbers. -/
def combined (f : Rat → Rat → Rat) (a b : Reading) : Option Reading :=
  a.number?.bind fun x => b.number?.map fun y => number (f x y)

end Reading

/-! ## The domain -/

/-- A signal shows a color. -/
def Color.Shown : Color → Rat → Prop
  | green, v => v > 1
  | yellow, v => v = 1
  | red, v => 0 < v ∧ v < 1
  | unknown, v => v ≤ 0

/-- A turn leads in a direction. -/
def Direction.Taken : Direction → Rat → Prop
  | left, t => t < 0
  | straight, t => t = 0
  | right, t => t > 0

/-- One figure lies in the other: a point on a line or in an area, a line or an area in an area. -/
def Figure.inclusion? (I : Interpretation) : Figure → Figure → Option Prop
  | point p, line l => some (I.place p ∈ l.points I)
  | point p, area a => some (I.place p ∈ a.points I)
  | line l, area a => some (l.points I ⊆ a.points I)
  | area a, area b => some (a.points I ⊆ b.points I)
  | _, _ => none

/-- Two figures have a place in common; points are not asked about. -/
def Figure.intersection? (I : Interpretation) : Figure → Figure → Option Prop
  | line a, line b => some (a.points I ∩ b.points I).Nonempty
  | area a, area b => some (a.points I ∩ b.points I).Nonempty
  | line l, area a => some (l.points I ∩ a.points I).Nonempty
  | area a, line l => some (a.points I ∩ l.points I).Nonempty
  | _, _ => none

/-- Two distances along the road are compared with a window. -/
def Encounter.Timed : Encounter → (a b lo hi : Rat) → Prop
  | cross, a, b, lo, hi => (lo ≤ a ∧ a ≤ hi) ∨ (lo ≤ b ∧ b ≤ hi)
  | above, a, b, lo, _ => a < lo ∧ b < lo
  | below, a, b, _, hi => a > hi ∧ b > hi

/-- The condition on the band is the timing of the encounter. -/
theorem Encounter.satisfies_timing (I : Interpretation) (e : Encounter) (k : Band) :
    I.Satisfies (e.timing k) ↔ e.Timed (I.amount k.a) (I.amount k.b) (I.amount k.lo) (I.amount k.hi) := by
  cases e with
  | cross =>
    rw [timing, I.satisfies_or_pair, I.satisfies_and_pair, I.satisfies_and_pair, I.satisfies_ge, I.satisfies_le,
      I.satisfies_ge, I.satisfies_le]
    rfl
  | above =>
    rw [timing, I.satisfies_and_pair, I.satisfies_lt, I.satisfies_lt]
    rfl
  | below =>
    rw [timing, I.satisfies_and_pair, I.satisfies_gt, I.satisfies_gt]
    rfl

/-- An obstacle `o` with velocity `v` passes the two sides of the band around a vehicle `e` at the
distances `a` and `b`, which are compared with the window around the vehicle. -/
def Encounter.OnTime (I : Interpretation) (k : Encounter) (e o : TrafficObject) (v : Point) : Prop :=
  let passes (offset : Rat) : Rat := I.divide offset (I.amount v.l) * I.amount v.s + I.amount o.pos.s
  k.Timed
    (passes (-I.amount e.size.l - I.amount o.size.l - I.amount o.pos.l))
    (passes (I.amount e.size.l + I.amount o.size.l - I.amount o.pos.l))
    (I.amount e.pos.s - I.amount e.size.s - I.amount o.size.s)
    (I.amount e.pos.s + I.amount e.size.s + I.amount o.size.s)

/-- An encounter of two moving objects: the timing is right and the trajectories cross. -/
def Encounter.reading? (I : Interpretation) (k : Encounter) (e o : TrafficObject) : Option Prop :=
  e.motion.bind fun m => o.motion.map fun n =>
    k.OnTime I e o n.v ∧ (m.trajectory.points I ∩ n.trajectory.points I).Nonempty

/-! ## The table of operators -/

open Reading in
/-- What an operator makes of its operands; nothing if the table has no line for them. -/
noncomputable def Operator.reading (I : Interpretation) : Operator → List Reading → Option Reading
  | and, r :: rs => ((r :: rs).mapM truth?).map fun ps => truth (∀ p ∈ ps, p)
  | or, r :: rs => ((r :: rs).mapM truth?).map fun ps => truth (∃ p ∈ ps, p)
  | not, [r] => r.truth?.map fun p => truth (¬ p)
  | eq, [a, b] => (a.equality? b).map truth
  | ne, [a, b] => (a.equality? b).map fun p => truth (¬ p)
  | lt, [a, b] => compared (· < ·) a b
  | le, [a, b] => compared (· ≤ ·) a b
  | gt, [a, b] => compared (· > ·) a b
  | ge, [a, b] => compared (· ≥ ·) a b
  | add, [a, b] => combined (· + ·) a b
  | sub, [a] => a.number?.map fun x => number (-x)
  | sub, [a, b] => combined (· - ·) a b
  | mul, [a, b] => combined (· * ·) a b
  | div, [a, b] => combined I.divide a b
  | abs, [a] => a.number?.map fun x => number |x|
  | inside, [a, b] => (a.figure?.bind fun f => b.figure?.bind fun g => f.inclusion? I g).map truth
  | cross, [a, b] => (a.figure?.bind fun f => b.figure?.bind fun g => f.intersection? I g).map truth
  | isColor, [a, marker (.color c)] => (a.colorSignal? I).map fun v => truth (c.Shown v)
  | isDirection, [a, marker (.direction d)] => (a.turnSignal? I).map fun t => truth (d.Taken t)
  | stCross, [a, b] => (a.object?.bind fun e => b.object?.bind fun o => Encounter.cross.reading? I e o).map truth
  | stAbove, [a, b] => (a.object?.bind fun e => b.object?.bind fun o => Encounter.above.reading? I e o).map truth
  | stBelow, [a, b] => (a.object?.bind fun e => b.object?.bind fun o => Encounter.below.reading? I e o).map truth
  | _, _ => none

/-! ## Leaves and trees -/

/-- What a value stands for. -/
noncomputable def Value.reading (I : Interpretation) : Value → Reading
  | term t => if t.sort = .bool then .truth (I.Satisfies t) else .number (I.amount t)
  | v => .value v

/-- What a literal stands for. -/
def Literal.reading : Literal → Reading
  | int digits => .number (decimalValue digits.toList)
  | decimal digits => .number (decimalValue digits.toList)
  | bool b => .truth (b = true)

namespace Tree

mutual

/-- What a tree stands for. -/
noncomputable def reading (registry : Registry) (I : Interpretation) : Tree → Option Reading
  | node _ (.literal l) _ _ => some l.reading
  | node _ (.marker m) _ _ => some (.marker m)
  | node _ (.symbol name) _ _ => (registry.lookup name).map (·.reading I)
  | node _ (.operator op) _ children => (readingAll registry I children).bind (op.reading I)

noncomputable def readingAll (registry : Registry) (I : Interpretation) : List Tree → Option (List Reading)
  | [] => some []
  | t :: ts => (t.reading registry I).bind fun r => (readingAll registry I ts).map (r :: ·)

end

end Tree

end RoadPolicy
