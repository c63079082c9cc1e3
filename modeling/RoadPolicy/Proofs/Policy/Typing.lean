/-
The typing rules of the policy language, apart from lowering. The table says which kinds of operands
each operator takes and what kind it makes of them; the rules give an expression its kind from those
of its parts. Every expression has one kind at most.
-/
import Mathlib.Tactic
import RoadPolicy.Policy.Apply
import RoadPolicy.Policy.Registry
import RoadPolicy.Proofs.Language.Expression

namespace RoadPolicy

/-- The kinds of expressions. -/
inductive Kind where
  | bool | number
  | point | line | area
  | lane
  /-- An object: does it move, and does it show a color? -/
  | object (moving colored : Bool)
  | color | direction
deriving DecidableEq, Repr

namespace Operator

/-- The table of operators. -/
def Takes : Operator → List Kind → Prop
  | and, ks | or, ks => ks ≠ [] ∧ ∀ k ∈ ks, k = .bool
  | not, ks => ks = [.bool]
  | eq, ks | ne, ks => ks = [.bool, .bool] ∨ ks = [.number, .number]
  | lt, ks | le, ks | gt, ks | ge, ks => ks = [.number, .number]
  | add, ks | mul, ks | div, ks => ks = [.number, .number]
  | sub, ks => ks = [.number] ∨ ks = [.number, .number]
  | abs, ks => ks = [.number]
  | inside, ks => ks ∈ [[Kind.point, .line], [.point, .area], [.line, .area], [.area, .area]]
  | cross, ks => ks ∈ [[Kind.line, .line], [.area, .area], [.line, .area], [.area, .line]]
  | isColor, ks => ks = [.number, .color] ∨ ∃ moving, ks = [.object moving true, .color]
  | isDirection, ks => ks = [.number, .direction] ∨ ks = [.lane, .direction]
  | stCross, ks | stAbove, ks | stBelow, ks => ∃ c d, ks = [.object true c, .object true d]

/-- The kind of what an operator makes. -/
def yields : Operator → Kind
  | add | sub | mul | div | abs => .number
  | _ => .bool

/-- The table keeps the arities. -/
theorem Takes.accepts {op : Operator} {ks : List Kind} (h : op.Takes ks) : op.arity.accepts ks.length = true := by
  cases op with
  | and | or =>
    have hlen : 1 ≤ ks.length := List.length_pos_iff.2 h.1
    exact decide_eq_true hlen
  | not | lt | le | gt | ge | add | mul | div | abs => cases h; rfl
  | eq | ne | sub | isDirection => rcases h with rfl | rfl <;> rfl
  | inside | cross =>
    simp only [Takes, List.mem_cons, List.not_mem_nil, or_false] at h
    rcases h with rfl | rfl | rfl | rfl <;> rfl
  | isColor => rcases h with rfl | ⟨moving, rfl⟩ <;> rfl
  | stCross | stAbove | stBelow =>
    obtain ⟨c, d, rfl⟩ := h
    rfl

end Operator

/-! ## Leaves -/

def Literal.shape : Literal → Kind
  | int _ | decimal _ => .number
  | bool _ => .bool

def Marker.shape : Marker → Kind
  | color _ => .color
  | direction _ => .direction

def Term.shape (t : Term) : Kind := if t.sort = .bool then .bool else .number

def Figure.shape : Figure → Kind
  | point _ => .point
  | line _ => .line
  | area _ => .area

def TrafficObject.shape (o : TrafficObject) : Kind := .object o.motion.isSome o.color.isSome

def Value.shape : Value → Kind
  | term t => t.shape
  | point _ => .point
  | line _ => .line
  | area _ => .area
  | lane _ => .lane
  | object o => o.shape

/-! ## Expressions -/

/-- The typing rules. Only names depend on the registry. -/
inductive Expression.HasKind (registry : Registry) : Expression → Kind → Prop
  | literal {l : Literal} {span : Span} : HasKind registry (.node (.literal l) span []) l.shape
  | marker {m : Marker} {span : Span} : HasKind registry (.node (.marker m) span []) m.shape
  | symbol {name : String} {span : Span} {v : Value} : registry.lookup name = some v →
      HasKind registry (.node (.symbol name) span []) v.shape
  | call {op : Operator} {span : Span} {args : List Expression} {ks : List Kind} :
      List.Forall₂ (HasKind registry) args ks → op.Takes ks →
      HasKind registry (.node (.operator op) span args) op.yields

namespace Expression

variable {registry : Registry}

theorem HasKind.unique {e : Expression} {k k' : Kind} (h : e.HasKind registry k) (h' : e.HasKind registry k') :
    k = k' := by
  cases h with
  | literal | marker | call => cases h'; rfl
  | symbol hv =>
    cases h' with
    | symbol hv' =>
      rw [hv] at hv'
      cases hv'
      rfl

theorem haveKinds_unique {es : List Expression} {ks ks' : List Kind} (h : List.Forall₂ (HasKind registry) es ks)
    (h' : List.Forall₂ (HasKind registry) es ks') : ks = ks' := by
  induction h generalizing ks' with
  | nil =>
    cases h'
    rfl
  | cons hk _ ih =>
    cases h' with
    | cons hk' hks' => rw [hk.unique hk', ih hks']

end Expression

end RoadPolicy
