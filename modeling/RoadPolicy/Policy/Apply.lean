/-
What operators mean: which operands each of them takes, and the formula or number that it makes of
them. Only the spatial operators take a fresh name, and only once their operands have been accepted.
-/
import RoadPolicy.Language.Vocabulary
import RoadPolicy.Road.Encounter
import RoadPolicy.Road.Value

namespace RoadPolicy

/-! ## Operands -/

/-- An operand: a value or a marker. -/
inductive Operand where
  | value (v : Value)
  | marker (m : Marker)

/-- The kinds of operands, as error messages tell them apart. -/
inductive OperandKind where
  | value (kind : ValueKind)
  | color
  | direction
deriving DecidableEq, Repr

def OperandKind.text : OperandKind → String
  | value kind => kind.text
  | color => "color macro"
  | direction => "direction macro"

namespace Operand

def term (t : Term) : Operand := value (.term t)

def kind : Operand → OperandKind
  | value v => .value v.kind
  | marker (.color _) => .color
  | marker (.direction _) => .direction

/-- The operand as a figure. -/
def figure? : Operand → Option Figure
  | value v => v.figure?
  | marker _ => none

/-- The operand as an object. -/
def object? : Operand → Option TrafficObject
  | value v => v.object?
  | marker _ => none

end Operand

/-! ## Errors -/

/-- Why an operator does not take its operands. -/
inductive ApplyError where
  | arity (expected : Arity) (found : Nat)
  | expectedNumber (found : OperandKind)
  | expectedBoolean (found : OperandKind)
  | incomparable (left right : OperandKind)
  | expectedFigures (left right : OperandKind)
  | noContainment (inner outer : FigureKind)
  | noCrossing (left right : FigureKind)
  | noColorSignal (kind : ObjectKind)
  | expectedLight (found : OperandKind)
  | expectedColor (found : OperandKind)
  | expectedLane (found : OperandKind)
  | expectedDirection (found : OperandKind)
  | expectedObjects (left right : OperandKind)
  | notMoving (left right : ObjectKind)
deriving DecidableEq, Repr

/-- The wording of an error. -/
def ApplyError.message : ApplyError → String
  | arity expected found =>
    "expects " ++ expected.text ++ " argument(s), found " ++ toString found
  | expectedNumber found => "expected a number, found " ++ found.text
  | expectedBoolean found => "expected a boolean, found " ++ found.text
  | incomparable left right => "cannot compare " ++ left.text ++ " with " ++ right.text
  | expectedFigures left right =>
    "expected two geometric values, found " ++ left.text ++ " and " ++ right.text
  | noContainment inner outer => inner.text ++ " in " ++ outer.text ++ " is not supported"
  | noCrossing left right => left.text ++ " crossing " ++ right.text ++ " is not supported"
  | noColorSignal kind => kind.label ++ " object has no color signal"
  | expectedLight found => "expected a traffic light or a number, found " ++ found.text
  | expectedColor found => "expected a color, found " ++ found.text
  | expectedLane found => "expected a lane or a number, found " ++ found.text
  | expectedDirection found => "expected a direction, found " ++ found.text
  | expectedObjects left right =>
    "expected two objects, found " ++ left.text ++ " and " ++ right.text
  | notMoving left right =>
    "both objects must be moving agents, found " ++ left.label ++ " and " ++ right.label

/-! ## Reading operands -/

namespace Operand

/-- A number. -/
def number : Operand → Except ApplyError Term
  | value (.term t) =>
    if t.sort = .bool then .error (.expectedNumber (term t).kind) else .ok t
  | o => .error (.expectedNumber o.kind)

/-- A formula. -/
def boolean : Operand → Except ApplyError Term
  | value (.term t) =>
    if t.sort = .bool then .ok t else .error (.expectedBoolean (term t).kind)
  | o => .error (.expectedBoolean o.kind)

/-- Two formulas or two numbers. -/
def comparable : Operand → Operand → Except ApplyError (Term × Term)
  | value (.term a), value (.term b) =>
    if (a.sort == .bool) = (b.sort == .bool) then .ok (a, b)
    else .error (.incomparable (term a).kind (term b).kind)
  | a, b => .error (.incomparable a.kind b.kind)

/-- Two figures. -/
def figures (a b : Operand) : Except ApplyError (Figure × Figure) :=
  match a.figure?, b.figure? with
  | some f, some g => .ok (f, g)
  | _, _ => .error (.expectedFigures a.kind b.kind)

/-- Two objects. -/
def objects (a b : Operand) : Except ApplyError (TrafficObject × TrafficObject) :=
  match a.object?, b.object? with
  | some o, some p => .ok (o, p)
  | _, _ => .error (.expectedObjects a.kind b.kind)

/-- The signal of a traffic light, or a number. -/
def colorSignal : Operand → Except ApplyError Term
  | value (.object o) =>
    match o.color with
    | some signal => .ok signal
    | none => .error (.noColorSignal o.kind)
  | o =>
    match o.number with
    | .ok t => .ok t
    | .error _ => .error (.expectedLight o.kind)

/-- The turn of a lane, or a number. -/
def turnSignal : Operand → Except ApplyError Term
  | value (.lane lane) => .ok lane.turn
  | o =>
    match o.number with
    | .ok t => .ok t
    | .error _ => .error (.expectedLane o.kind)

def color : Operand → Except ApplyError Color
  | marker (.color c) => .ok c
  | o => .error (.expectedColor o.kind)

def direction : Operand → Except ApplyError Direction
  | marker (.direction d) => .ok d
  | o => .error (.expectedDirection o.kind)

end Operand

/-! ## Signals -/

/-- A signal shows a color: above one it is green, at one yellow, between zero and one red, and
otherwise unknown. -/
def Color.formula (signal : Term) : Color → Term
  | green => signal.gt (.int 1)
  | yellow => .eq signal (.int 1)
  | red => .and [signal.lt (.int 1), signal.gt (.int 0)]
  | unknown => signal.le (.int 0)

/-- A turn leads in a direction: to the left below zero, to the right above it. -/
def Direction.formula (turn : Term) : Direction → Term
  | left => turn.lt (.int 0)
  | straight => .eq turn (.int 0)
  | right => turn.gt (.int 0)

/-! ## Operators -/

/-- The result of an operator, with the names that it takes. -/
abbrev Applying := ExceptT ApplyError Naming

namespace Operator

/-- A term that needs no fresh name. -/
def plain (result : Except ApplyError Term) : Applying Term := ExceptT.mk (pure result)

/-- A term that may need a fresh name, if there is one at all. -/
def spatial (result : Option (Naming Term)) (error : ApplyError) : Applying Term :=
  match result with
  | some formula => liftM formula
  | none => throw error

/-- Two numbers, the left one first. -/
def numbers (a b : Operand) (f : Term → Term → Term) : Except ApplyError Term := do
  let x ← a.number
  let y ← b.number
  return f x y

/-- An encounter of two objects. -/
def encounter (e : Encounter) (a b : Operand) : Applying Term :=
  match a.objects b with
  | .ok (o, p) => spatial (e.formula o p) (.notMoving o.kind p.kind)
  | .error err => throw err

/-- The result of an operator on operands of the right number. -/
def onOperands : Operator → List Operand → Applying Term
  | and, args => plain do return .and (← args.mapM Operand.boolean)
  | or, args => plain do return .or (← args.mapM Operand.boolean)
  | not, [a] => plain do return .not (← a.boolean)
  | eq, [a, b] => plain do
    let (x, y) ← a.comparable b
    return .eq x y
  | ne, [a, b] => plain do
    let (x, y) ← a.comparable b
    return .ne x y
  | lt, [a, b] => plain (numbers a b .lt)
  | le, [a, b] => plain (numbers a b .le)
  | gt, [a, b] => plain (numbers a b .gt)
  | ge, [a, b] => plain (numbers a b .ge)
  | add, [a, b] => plain (numbers a b (· + ·))
  | sub, [a] => plain do return -(← a.number)
  | sub, [a, b] => plain (numbers a b (· - ·))
  | mul, [a, b] => plain (numbers a b (· * ·))
  | div, [a, b] => plain (numbers a b (· / ·))
  | abs, [a] => plain do return (← a.number).abs
  | inside, [a, b] =>
    match a.figures b with
    | .ok (f, g) => spatial (f.containment g) (.noContainment f.kind g.kind)
    | .error err => throw err
  | cross, [a, b] =>
    match a.figures b with
    | .ok (f, g) => spatial (f.crossing g) (.noCrossing f.kind g.kind)
    | .error err => throw err
  | isColor, [a, b] => plain do
    let signal ← a.colorSignal
    let c ← b.color
    return c.formula signal
  | isDirection, [a, b] => plain do
    let turn ← a.turnSignal
    let d ← b.direction
    return d.formula turn
  | stCross, [a, b] => encounter .cross a b
  | stAbove, [a, b] => encounter .above a b
  | stBelow, [a, b] => encounter .below a b
  | op, args => throw (.arity op.arity args.length)

/-- The result of an operator. The number of operands is checked before anything else. -/
def apply (op : Operator) (args : List Operand) : Applying Term :=
  if op.arity.accepts args.length then op.onOperands args
  else throw (.arity op.arity args.length)

end Operator

end RoadPolicy
