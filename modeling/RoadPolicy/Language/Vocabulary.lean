/-
The fixed words of the policy language: operators with their arities, literals, and markers (the
names of signal colors and turn directions). Each class reads words on its own; a word may be read
by at most one of them.
-/
import RoadPolicy.Text.Digits

namespace RoadPolicy

/-! ## Operators -/

/-- How many arguments an operator takes. -/
inductive Arity where
  | exactly (n : Nat)
  | atLeast (n : Nat)
  /-- One argument or two: the minus sign negates and subtracts. -/
  | oneOrTwo
deriving DecidableEq, Repr

namespace Arity

def accepts : Arity → Nat → Bool
  | exactly k, n => n == k
  | atLeast k, n => k ≤ n
  | oneOrTwo, n => n == 1 || n == 2

def text : Arity → String
  | exactly k => s!"exactly {k}"
  | atLeast k => s!"at least {k}"
  | oneOrTwo => "1 or 2"

end Arity

/-- The operators. -/
inductive Operator where
  | and | or | not
  | eq | ne | lt | le | gt | ge
  | add | sub | mul | div | abs
  | inside | cross
  | isColor | isDirection
  | stCross | stAbove | stBelow
deriving DecidableEq, Repr

namespace Operator

/-- All operators, in the order of the language's table. -/
def all : List Operator :=
  [and, or, not, eq, ne, lt, le, gt, ge, add, sub, mul, div, abs, inside, cross, isColor,
    isDirection, stCross, stAbove, stBelow]

/-- The word that writes the operator. -/
def text : Operator → String
  | and => "and"
  | or => "or"
  | not => "not"
  | eq => "=="
  | ne => "!="
  | lt => "<"
  | le => "<="
  | gt => ">"
  | ge => ">="
  | add => "+"
  | sub => "-"
  | mul => "*"
  | div => "/"
  | abs => "abs"
  | inside => "in"
  | cross => "cross"
  | isColor => "is_color"
  | isDirection => "is_direction"
  | stCross => "st_cross"
  | stAbove => "st_above"
  | stBelow => "st_below"

def arity : Operator → Arity
  | and | or => .atLeast 1
  | not | abs => .exactly 1
  | sub => .oneOrTwo
  | _ => .exactly 2

/-- The operator that a word writes. -/
def ofWord? (word : String) : Option Operator :=
  all.find? fun op => op.text == word

/-- The table is complete. -/
theorem mem_all (op : Operator) : op ∈ all := by
  cases op <;> decide

end Operator

/-! ## Literals -/

/-- A literal. The text of a number is kept as written, at any length. -/
inductive Literal where
  | int (digits : String)
  | decimal (digits : String)
  | bool (value : Bool)
deriving DecidableEq, Repr

namespace Literal

def text : Literal → String
  | int digits => digits
  | decimal digits => digits
  | bool true => "True"
  | bool false => "False"

/-- The literal that a word writes: a truth value, digits, or digits with one point inside. -/
def ofWord? (word : String) : Option Literal :=
  if word = "True" then some (bool true)
  else if word = "False" then some (bool false)
  else if allDigits word.toList then some (int word)
  else
    match cutAtPoint word.toList with
    | (whole, some fraction) =>
      if allDigits whole && allDigits fraction then some (decimal word) else none
    | (_, none) => none

end Literal

/-! ## Markers -/

/-- What a traffic light can show. -/
inductive Color where
  | red | yellow | green | unknown
deriving DecidableEq, Repr

namespace Color

def all : List Color := [red, yellow, green, unknown]

def text : Color → String
  | red => "red"
  | yellow => "yellow"
  | green => "green"
  | unknown => "unknown"

end Color

/-- Where a lane leads. -/
inductive Direction where
  | left | straight | right
deriving DecidableEq, Repr

namespace Direction

def all : List Direction := [left, straight, right]

def text : Direction → String
  | left => "left"
  | straight => "straight"
  | right => "right"

end Direction

/-- A fixed name with a meaning in the domain. -/
inductive Marker where
  | color (c : Color)
  | direction (d : Direction)
deriving DecidableEq, Repr

namespace Marker

def text : Marker → String
  | color c => c.text
  | direction d => d.text

/-- All markers, colors first. -/
def all : List Marker := Color.all.map color ++ Direction.all.map direction

/-- The marker that a word writes. -/
def ofWord? (word : String) : Option Marker :=
  all.find? fun m => m.text == word

end Marker

end RoadPolicy
