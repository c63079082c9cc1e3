/-
Visiting a subtree after its parts: every child of a node, from first to last, before the node
itself. The walk keeps its own stack, so the depth of an expression costs no recursion, and it works
in any monad: an exception raised at a node ends it there.
-/
import RoadPolicy.Language.Arena

namespace RoadPolicy

namespace Arena

/-- A node that the walk has entered, and its children that are still to be entered. -/
structure Frame where
  id : NodeId
  pending : List NodeId

/-- The frame of a node that is being entered. -/
def frame (a : Arena) (id : NodeId) : Frame := ⟨id, a.children id⟩

/-- At most `limit` steps of a walk: enter the next child of the node on top of the stack or, when
none is left, visit that node. -/
def walkWithin {m : Type → Type} [Monad m] (a : Arena) (visit : NodeId → m Unit) :
    Nat → List Frame → m Unit
  | 0, _ => pure ()
  | _ + 1, [] => pure ()
  | limit + 1, ⟨id, child :: pending⟩ :: stack =>
    a.walkWithin visit limit (a.frame child :: ⟨id, pending⟩ :: stack)
  | limit + 1, ⟨id, []⟩ :: stack => do
    visit id
    a.walkWithin visit limit stack

/-- Visits a node and all that is below it. In a forest every node is visited at most once and
entered at most once, which bounds the number of steps. -/
def walk {m : Type → Type} [Monad m] (a : Arena) (id : NodeId) (visit : NodeId → m Unit) : m Unit :=
  a.walkWithin visit (2 * a.size) [a.frame id]

/-- The nodes of a subtree in the order of a walk. -/
def postOrder (a : Arena) (id : NodeId) : Array NodeId :=
  ((a.walk (m := StateM (Array NodeId)) id fun i => modify fun seen => seen.push i).run #[]).2

end Arena

end RoadPolicy
