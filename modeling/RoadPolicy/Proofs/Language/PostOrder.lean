/-
The walk of an arena visits a tree in post-order. An arena holds a tree if every node of the tree
stands in it with its head, its place and its children; the walk, which keeps a stack of its own and
counts its steps, is then the recursion on the tree, in any monad.
-/
import RoadPolicy.Language.Walk
import RoadPolicy.Proofs.Language.Expression

namespace RoadPolicy

namespace Tree

/-- The index of the topmost node. -/
def id : Tree → NodeId
  | node id _ _ _ => id

/-- The place of the topmost node. -/
def span : Tree → Span
  | node _ _ span _ => span

mutual

/-- The number of nodes. -/
def size : Tree → Nat
  | node _ _ _ children => sizeAll children + 1

def sizeAll : List Tree → Nat
  | [] => 0
  | t :: ts => t.size + sizeAll ts

end

mutual

/-- The nodes, each after its children. -/
def postOrder : Tree → List NodeId
  | node id _ _ children => postOrderAll children ++ [id]

def postOrderAll : List Tree → List NodeId
  | [] => []
  | t :: ts => t.postOrder ++ postOrderAll ts

end

/-- Induction over trees: the children of a node are taken all at once. -/
@[induction_eliminator]
theorem inductionOn {motive : Tree → Prop}
    (node : ∀ id head span children, (∀ t ∈ children, motive t) → motive (node id head span children)) :
    ∀ t, motive t :=
  @Tree.rec motive (fun ts => ∀ t ∈ ts, motive t) node (fun _ h => nomatch h)
    (fun _ _ ht hts u hu => (List.mem_cons.1 hu).elim (fun e => e ▸ ht) (hts u))

theorem id_mem_postOrder (t : Tree) : t.id ∈ t.postOrder := by
  cases t
  simp [id, postOrder]

theorem nodup_postOrder_of_mem {t : Tree} : ∀ {ts : List Tree}, (postOrderAll ts).Nodup → t ∈ ts → t.postOrder.Nodup
  | u :: ts, hnd, ht => by
    rw [postOrderAll, List.nodup_append] at hnd
    rcases List.mem_cons.1 ht with rfl | ht
    · exact hnd.1
    · exact nodup_postOrder_of_mem hnd.2.1 ht

end Tree

/-! ## Arenas that hold a tree -/

namespace Arena

/-- Every node of the tree stands in the arena, with the same head, place and children. -/
inductive Holds (a : Arena) : Tree → Prop
  | node {id : NodeId} {n : Node} {children : List Tree} : a.node? id = some n → n.children = children.map Tree.id →
      (∀ t ∈ children, Holds a t) → Holds a (.node id n.head n.span children)

theorem mapM_holds {a : Arena} {depth : Nat} (ih : ∀ {id : NodeId} {t : Tree}, a.treeWithin depth id = some t →
    a.Holds t ∧ t.id = id) : ∀ {ids : List NodeId} {ts : List Tree}, ids.mapM (a.treeWithin depth) = some ts →
      ids = ts.map Tree.id ∧ ∀ t ∈ ts, a.Holds t
  | [], ts, h => by cases h; simp
  | id :: ids, ts, h => by
    rw [List.mapM_cons] at h
    obtain ⟨t, ht, h⟩ := Option.bind_eq_some_iff.1 h
    obtain ⟨us, hus, h⟩ := Option.bind_eq_some_iff.1 h
    cases h
    obtain ⟨hhold, rfl⟩ := ih ht
    obtain ⟨rfl, hall⟩ := mapM_holds ih hus
    exact ⟨rfl, List.forall_mem_cons.2 ⟨hhold, hall⟩⟩

/-- An arena holds the trees that it unfolds to. -/
theorem holds_of_treeWithin {a : Arena} : ∀ {depth : Nat} {id : NodeId} {t : Tree}, a.treeWithin depth id = some t →
    a.Holds t ∧ t.id = id
  | 0, _, _, h => nomatch h
  | depth + 1, id, t, h => by
    rw [treeWithin] at h
    split at h
    · cases h
    · rename_i n hn
      obtain ⟨ts, hts, rfl⟩ := Option.map_eq_some_iff.1 h
      obtain ⟨hids, hall⟩ := mapM_holds holds_of_treeWithin hts
      exact ⟨.node hn hids hall, rfl⟩

/-! ## The walk -/

/-- A walk from this stack comes to its end, after so many turns, and has then visited these nodes. -/
inductive Ends (a : Arena) : List Frame → Nat → List NodeId → Prop
  | done : Ends a [] 0 []
  | enter {id child : NodeId} {pending visited : List NodeId} {stack : List Frame} {turns : Nat} :
      Ends a (a.frame child :: ⟨id, pending⟩ :: stack) turns visited →
      Ends a (⟨id, child :: pending⟩ :: stack) (turns + 1) visited
  | visit {id : NodeId} {visited : List NodeId} {stack : List Frame} {turns : Nat} :
      Ends a stack turns visited → Ends a (⟨id, []⟩ :: stack) (turns + 1) (id :: visited)

variable {a : Arena}

/-- The rest of a node: its pending children are walked, then it is visited itself. Entering a child
and visiting a node take one turn each. -/
theorem ends_pending : ∀ {ts : List Tree},
    (∀ t ∈ ts, ∀ {stack turns visited}, a.Ends stack turns visited →
      a.Ends (a.frame t.id :: stack) (2 * t.size - 1 + turns) (t.postOrder ++ visited)) →
    ∀ (id : NodeId) {stack turns visited}, a.Ends stack turns visited →
      a.Ends (⟨id, ts.map Tree.id⟩ :: stack) (2 * Tree.sizeAll ts + (turns + 1)) (Tree.postOrderAll ts ++ id :: visited)
  | [], _, id, stack, turns, visited, hrest => by
    rw [Tree.sizeAll, Nat.mul_zero, Nat.zero_add]
    exact .visit hrest
  | t :: ts, h, id, stack, turns, visited, hrest => by
    have hpos : 0 < t.size := by cases t; simp [Tree.size]
    have hturns : 2 * Tree.sizeAll (t :: ts) + (turns + 1) =
        2 * t.size - 1 + (2 * Tree.sizeAll ts + (turns + 1)) + 1 := by
      rw [Tree.sizeAll]; omega
    rw [hturns, Tree.postOrderAll, List.append_assoc]
    exact .enter (h t (List.mem_cons_self ..) (ends_pending (fun u hu => h u (List.mem_cons_of_mem _ hu)) id hrest))

/-- Walking a tree on top of a stack visits the tree in post-order. -/
theorem Holds.ends {t : Tree} (h : a.Holds t) : ∀ {stack turns visited}, a.Ends stack turns visited →
    a.Ends (a.frame t.id :: stack) (2 * t.size - 1 + turns) (t.postOrder ++ visited) := by
  induction h with
  | @node id n children hn hids _ ih =>
    intro stack turns visited hrest
    have hframe : a.frame id = ⟨id, children.map Tree.id⟩ := by
      rw [frame, Arena.children, hn, ← hids]
      rfl
    have hturns : 2 * (Tree.node id n.head n.span children).size - 1 + turns =
        2 * Tree.sizeAll children + (turns + 1) := by
      rw [Tree.size]; omega
    rw [hturns, Tree.id, hframe, Tree.postOrder, List.append_assoc]
    exact ends_pending ih id hrest

section

variable {m : Type → Type} [Monad m] {visit : NodeId → m Unit}

/-- A limit that is not below the number of turns is never noticed. -/
theorem walkWithin_of_ends {stack : List Frame} {turns : Nat} {visited : List NodeId}
    (h : a.Ends stack turns visited) : ∀ {limit : Nat}, turns ≤ limit →
    a.walkWithin visit limit stack = forM visited visit := by
  induction h with
  | done =>
    intro limit _
    cases limit <;> rfl
  | enter _ ih =>
    intro limit hlimit
    obtain ⟨limit, rfl⟩ : ∃ k, limit = k + 1 := ⟨limit - 1, by omega⟩
    rw [walkWithin, ih (by omega)]
  | visit _ ih =>
    intro limit hlimit
    obtain ⟨limit, rfl⟩ : ∃ k, limit = k + 1 := ⟨limit - 1, by omega⟩
    rw [walkWithin, ih (by omega)]
    rfl

/-- Walking a tree visits it in post-order. -/
theorem walk_eq_forM {t : Tree} (h : a.Holds t) (hsize : t.size ≤ a.size) :
    a.walk t.id visit = forM t.postOrder visit := by
  have hends : a.Ends [a.frame t.id] (2 * t.size - 1 + 0) (t.postOrder ++ []) := h.ends .done
  rw [List.append_nil] at hends
  exact walkWithin_of_ends hends (by omega)

end

end Arena

/-! ## The tree of an expression -/

namespace Expression

theorem size_treeAll {es : List Expression} (h : ∀ e ∈ es, ∀ base, (e.tree base).size = e.size) :
    ∀ base, Tree.sizeAll (treeAll base es) = sizeAll es := by
  induction es with
  | nil => intro base; rfl
  | cons e es ih =>
    intro base
    rw [treeAll, Tree.sizeAll, sizeAll, h e (List.mem_cons_self ..), ih fun f hf => h f (List.mem_cons_of_mem _ hf)]

@[simp] theorem size_tree (e : Expression) : ∀ base, (e.tree base).size = e.size := by
  induction e with
  | node head span args ih =>
    intro base
    rw [tree, Tree.size, size_treeAll ih, size]

theorem mem_postOrderAll_treeAll {es : List Expression}
    (h : ∀ e ∈ es, ∀ {base i : Nat}, i ∈ (e.tree base).postOrder ↔ base ≤ i ∧ i < base + e.size) :
    ∀ {base i : Nat}, i ∈ Tree.postOrderAll (treeAll base es) ↔ base ≤ i ∧ i < base + sizeAll es := by
  induction es with
  | nil => intro base i; simp [treeAll, Tree.postOrderAll, sizeAll]
  | cons e es ih =>
    intro base i
    rw [treeAll, Tree.postOrderAll, List.mem_append, h e (List.mem_cons_self ..),
      ih fun f hf => h f (List.mem_cons_of_mem _ hf), sizeAll]
    omega

/-- The nodes of the tree are numbered without gaps. -/
theorem mem_postOrder_tree (e : Expression) : ∀ {base i : Nat},
    i ∈ (e.tree base).postOrder ↔ base ≤ i ∧ i < base + e.size := by
  induction e with
  | node head span args ih =>
    intro base i
    rw [tree, Tree.postOrder, List.mem_append, mem_postOrderAll_treeAll ih, List.mem_singleton, size]
    omega

theorem nodup_postOrderAll_treeAll {es : List Expression} (h : ∀ e ∈ es, ∀ base : Nat, (e.tree base).postOrder.Nodup) :
    ∀ base : Nat, (Tree.postOrderAll (treeAll base es)).Nodup := by
  induction es with
  | nil => intro base; exact List.nodup_nil
  | cons e es ih =>
    intro base
    rw [treeAll, Tree.postOrderAll, List.nodup_append]
    refine ⟨h e (List.mem_cons_self ..) base, ih (fun f hf => h f (List.mem_cons_of_mem _ hf)) _, ?_⟩
    rintro i hi j hj rfl
    have h1 := e.mem_postOrder_tree.1 hi
    have h2 := (mem_postOrderAll_treeAll fun f _ => f.mem_postOrder_tree).1 hj
    omega

theorem nodup_postOrder_tree (e : Expression) : ∀ base : Nat, (e.tree base).postOrder.Nodup := by
  induction e with
  | node head span args ih =>
    intro base
    rw [tree, Tree.postOrder, List.nodup_append]
    refine ⟨nodup_postOrderAll_treeAll ih _, List.nodup_singleton _, ?_⟩
    rintro i hi j hj rfl
    obtain rfl := List.mem_singleton.1 hj
    have := (mem_postOrderAll_treeAll fun f _ => f.mem_postOrder_tree).1 hi
    omega

end Expression

end RoadPolicy
