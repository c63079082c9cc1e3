/-
Expressions under construction: nodes in one growing array, linked by their indices both ways. A
node, once made, keeps its index; it can be attached to a parent, detached again, or declared the
root. A link that would give a node two parents, put the root under another node or close a cycle
is refused, so the nodes always form a forest.
-/
import RoadPolicy.Language.Vocabulary
import RoadPolicy.Text.Span

namespace RoadPolicy

/-- What stands at a node. -/
inductive Head where
  | operator (op : Operator)
  | literal (l : Literal)
  | marker (m : Marker)
  /-- A name that some space defines. -/
  | symbol (name : String)
deriving DecidableEq, Repr

/-- The head as it is written. -/
def Head.text : Head → String
  | operator op => op.text
  | literal l => l.text
  | marker m => m.text
  | symbol name => name

/-- The index of a node in its arena. -/
abbrev NodeId := Nat

/-- A node: its head, its place in the source, and its links. -/
structure Node where
  head : Head
  span : Span
  parent : Option NodeId
  children : List NodeId
deriving DecidableEq, Repr

namespace Node

def isRoot (n : Node) : Bool := n.parent.isNone

def isLeaf (n : Node) : Bool := n.children.isEmpty

/-- A node with arguments, whatever its head. -/
def isApplied (n : Node) : Bool := !n.isLeaf

end Node

/-- Nodes in the order in which they were made, and the one declared the root. -/
structure Arena where
  nodes : Array Node
  root : Option NodeId
deriving DecidableEq, Repr

/-- Why a change to an arena is refused. -/
inductive Refusal where
  | rootHasParent
  | alreadyAttached (child : NodeId)
  | rootAsChild
  | cycle (child parent : NodeId)
deriving DecidableEq, Repr

/-- The wording of a refusal. -/
def Refusal.message : Refusal → String
  | rootHasParent => "root must not have a parent"
  | alreadyAttached child => s!"node NodeId({child}) already has a parent"
  | rootAsChild => "the root cannot become a child"
  | cycle child parent => s!"attaching NodeId({child}) under NodeId({parent}) would create a cycle"

namespace Arena

/-- No nodes. -/
def empty : Arena := ⟨#[], none⟩

def size (a : Arena) : Nat := a.nodes.size

def node? (a : Arena) (id : NodeId) : Option Node := a.nodes[id]?

def parent? (a : Arena) (id : NodeId) : Option NodeId := (a.node? id).bind (·.parent)

def children (a : Arena) (id : NodeId) : List NodeId := ((a.node? id).map (·.children)).getD []

/-! ## Reading upwards -/

/-- At most `limit` ancestors, nearest first. -/
def ancestorsWithin (a : Arena) : Nat → NodeId → List NodeId
  | 0, _ => []
  | limit + 1, id =>
    match a.parent? id with
    | none => []
    | some p => p :: a.ancestorsWithin limit p

/-- The ancestors of a node, nearest first. In a forest there are fewer than nodes. -/
def ancestors (a : Arena) (id : NodeId) : List NodeId := a.ancestorsWithin a.size id

/-! ## Changing an arena -/

/-- Adds a node without links; its index is the old size. -/
def push (a : Arena) (head : Head) (span : Span) : Arena × NodeId :=
  ({ a with nodes := a.nodes.push ⟨head, span, none, []⟩ }, a.size)

/-- Declares a node without a parent the root. -/
def setRoot (a : Arena) (id : NodeId) : Except Refusal Arena :=
  if (a.parent? id).isSome then .error .rootHasParent
  else .ok { a with root := some id }

/-- Both directions of a link from `parent` to a new last child. -/
def link (a : Arena) (parent child : NodeId) : Arena :=
  { a with
    nodes := (a.nodes.modify child fun n => { n with parent := some parent }).modify parent
      fun n => { n with children := n.children ++ [child] } }

/-- Makes `child` the last child of `parent`. -/
def addChild (a : Arena) (parent child : NodeId) : Except Refusal Arena :=
  if (a.parent? child).isSome then .error (.alreadyAttached child)
  else if a.root = some child then .error .rootAsChild
  else if parent = child ∨ child ∈ a.ancestors parent then .error (.cycle child parent)
  else .ok (a.link parent child)

/-- Takes a node from its parent. The node and all that is below it stay in the arena. -/
def detach (a : Arena) (id : NodeId) : Arena :=
  match a.parent? id with
  | none => a
  | some parent =>
    { a with
      nodes := (a.nodes.modify id fun n => { n with parent := none }).modify parent
        fun n => { n with children := n.children.filter (· != id) } }

end Arena

end RoadPolicy
