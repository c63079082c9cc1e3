/-
Expressions as trees: what hangs below a node of an arena, unfolded. Two arenas write the same
expression when their trees have the same heads in the same places; indices and spans do not count.
-/
import RoadPolicy.Language.Arena

namespace RoadPolicy

/-- A node with everything below it. -/
inductive Tree where
  | node (id : NodeId) (head : Head) (span : Span) (children : List Tree)

namespace Tree

mutual

/-- The expression as it is written: the head and, if it has arguments, these in parentheses. -/
def text : Tree → String
  | node _ head _ [] => head.text
  | node _ head _ (c :: cs) => head.text ++ "(" ++ c.text ++ textRest cs ++ ")"

/-- The arguments after the first one. -/
def textRest : List Tree → String
  | [] => ""
  | c :: cs => "," ++ c.text ++ textRest cs

end

mutual

/-- The same heads in the same places. -/
def agrees : Tree → Tree → Bool
  | node _ h _ cs, node _ k _ ds => h == k && agreesAll cs ds

def agreesAll : List Tree → List Tree → Bool
  | [], [] => true
  | c :: cs, d :: ds => c.agrees d && agreesAll cs ds
  | [], _ :: _ => false
  | _ :: _, [] => false

end

end Tree

namespace Arena

/-- The tree below a node, if it is at most `depth` levels deep. -/
def treeWithin (a : Arena) : Nat → NodeId → Option Tree
  | 0, _ => none
  | depth + 1, id =>
    match a.node? id with
    | none => none
    | some n => (n.children.mapM (a.treeWithin depth)).map (Tree.node id n.head n.span)

/-- The tree below a node. In a forest no path is longer than the number of nodes. -/
def treeAt? (a : Arena) (id : NodeId) : Option Tree := a.treeWithin a.size id

/-- The tree below the root. -/
def tree? (a : Arena) : Option Tree := a.root.bind a.treeAt?

/-- The expression below the root as it is written; nothing if there is no root. -/
def text (a : Arena) : String := (a.tree?.map Tree.text).getD ""

/-- Both arenas write the same expression, or neither has a root. -/
def equivalent (a b : Arena) : Bool :=
  match a.tree?, b.tree? with
  | none, none => true
  | some s, some t => s.agrees t
  | none, some _ => false
  | some _, none => false

end Arena

end RoadPolicy
