/-
From expressions to formulas. Every node is lowered once, after its children; its operand is kept
until the parent takes it. The whole expression has to be a formula.
-/
import RoadPolicy.Language.Walk
import RoadPolicy.Number.Decimal
import RoadPolicy.Policy.Apply
import RoadPolicy.Policy.Registry
import RoadPolicy.Text.Diagnostic

namespace RoadPolicy

/-! ## Errors -/

/-- What an expression is instead of a formula. -/
inductive NonFormula where
  | value (kind : ValueKind)
  | marker (m : Marker)
  | nothing
deriving DecidableEq, Repr

def NonFormula.text : NonFormula → String
  | value kind => kind.text
  | marker m => "macro '" ++ m.text ++ "'"
  | nothing => "empty expression"

/-- Why an expression is no formula, and where. -/
inductive LowerError where
  | typeMismatch (op : Operator) (cause : ApplyError) (span : Span)
  | malformedLiteral (text : String) (span : Span)
  | unresolved (name : String) (span : Span)
  | notFormula (found : NonFormula) (span : Span)
deriving DecidableEq, Repr

namespace LowerError

def span : LowerError → Span
  | typeMismatch _ _ s => s
  | malformedLiteral _ s => s
  | unresolved _ s => s
  | notFormula _ s => s

/-- The wording of an error. -/
def message : LowerError → String
  | typeMismatch op cause _ => "type mismatch in '" ++ op.text ++ "': " ++ cause.message
  | malformedLiteral text _ => "malformed literal '" ++ text ++ "'"
  | unresolved name _ => "unresolved symbol '" ++ name ++ "': it is not defined in any space"
  | notFormula found _ => "expression must be a boolean formula, but it is a " ++ found.text

/-- The error as it is shown. -/
def diagnostic (e : LowerError) : Diagnostic :=
  match e with
  | typeMismatch _ _ s =>
    { code := "avdiff::type_mismatch", message := e.message,
      labels := [(s, some "in this operator")] }
  | malformedLiteral _ s =>
    { code := "avdiff::lower", message := e.message, labels := [(s, none)] }
  | unresolved _ s =>
    { code := "avdiff::unresolved_symbol", message := e.message, labels := [(s, none)] }
  | notFormula _ s =>
    { code := "avdiff::lower", message := e.message,
      help := some "wrap it in a comparison, e.g. '>(expr, 0)'", labels := [(s, none)] }

end LowerError

/-! ## Nodes -/

/-- The term of a literal. -/
def Literal.term? : Literal → Option Term
  | int digits => (natural? digits).map fun (n : Nat) => .int n
  | decimal digits => (decimal? digits).map .real
  | bool b => some (.bool b)

/-- A computation that may fail with an error of lowering and takes fresh names. -/
abbrev Lowering := ExceptT LowerError Naming

/-- The operand of a node, given those of its children. Only an operator looks at them. -/
def Head.operand (registry : Registry) (span : Span) : Head → List Operand → Lowering Operand
  | literal l, _ =>
    match l.term? with
    | some t => pure (.term t)
    | none => throw (.malformedLiteral l.text span)
  | marker m, _ => pure (.marker m)
  | symbol name, _ =>
    match registry.lookup name with
    | some v => pure (.value v)
    | none => throw (.unresolved name span)
  | operator op, args => fun names =>
    match (op.apply args).run names with
    | (.ok t, names) => (.ok (.term t), names)
    | (.error cause, names) => (.error (.typeMismatch op cause span), names)

/-- The formula that an expression stands for, given the operand of its root. -/
def formulaOf (span : Span) : Option Operand → Except LowerError Term
  | some (.value (.term t)) =>
    if t.sort = .bool then .ok t else .error (.notFormula (.value (Value.term t).kind) span)
  | some (.value v) => .error (.notFormula (.value v.kind) span)
  | some (.marker m) => .error (.notFormula (.marker m) span)
  | none => .error (.notFormula .nothing span)

/-! ## Expressions -/

/-- The operands of the nodes lowered so far, until an operator takes them. -/
abbrev Operands := Array (Option Operand)

/-- Takes the operands of some nodes out of a table, from first to last; a node that has none is
passed over. -/
def Operands.takeAll (done : Operands) : List NodeId → List Operand × Operands
  | [] => ([], done)
  | c :: cs =>
    let (args, rest) := Operands.takeAll (done.setIfInBounds c none) cs
    ((done[c]?).join.toList ++ args, rest)

/-- The nodes whose operands a node takes: an operator takes those of all its children, a leaf none. -/
def Node.takes (n : Node) : List NodeId :=
  match n.head with
  | .operator _ => n.children
  | _ => []

/-- A walk that lowers nodes: it keeps their operands, takes fresh names and may fail. -/
abbrev LoweringWalk := ExceptT LowerError (StateM (Operands × NameSupply))

/-- Lowers one node; its children have been lowered. -/
def lowerNode (registry : Registry) (a : Arena) (id : NodeId) : LoweringWalk Unit :=
  match a.node? id with
  | none => pure ()
  | some n => fun (done, names) =>
    let (args, done) := done.takeAll n.takes
    match (n.head.operand registry n.span args).run names with
    | (.ok o, names) => (.ok (), (done.setIfInBounds id (some o), names))
    | (.error e, names) => (.error e, (done, names))

/-- The formula of the expression in an arena. -/
def lower (registry : Registry) (a : Arena) : Lowering Term := fun names =>
  match a.root with
  | none => (.error (.notFormula .nothing ⟨0, 0⟩), names)
  | some root =>
    match a.walk root (lowerNode registry a) (Array.replicate a.size none, names) with
    | (.ok (), (done, names)) =>
      (formulaOf (((a.node? root).map (·.span)).getD ⟨0, 0⟩) (done[root]?).join, names)
    | (.error e, (_, names)) => (.error e, names)

end RoadPolicy
