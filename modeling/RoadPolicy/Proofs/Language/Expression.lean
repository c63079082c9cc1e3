/-
Expressions apart from any arena: heads with their places and their arguments. Numbering the nodes
of an expression in the order in which they are written, each before its arguments, gives an arena.
That arena unfolds to the expression again, and every node of it hangs below the root.
-/
import Mathlib.Tactic
import RoadPolicy.Language.Tree

namespace RoadPolicy

/-- An expression: a head, where it stands, and its arguments. -/
inductive Expression where
  | node (head : Head) (span : Span) (args : List Expression)

namespace Expression

/-- Induction over expressions: the arguments are taken all at once. -/
@[induction_eliminator]
theorem inductionOn {motive : Expression → Prop}
    (node : ∀ head span args, (∀ e ∈ args, motive e) → motive (node head span args)) : ∀ e, motive e :=
  @Expression.rec motive (fun es => ∀ e ∈ es, motive e) node (fun _ h => nomatch h)
    (fun _ _ he hes u hu => (List.mem_cons.1 hu).elim (fun h => h ▸ he) (hes u))

/-! ## Numbering -/

mutual

/-- The number of nodes. -/
def size : Expression → Nat
  | node _ _ args => sizeAll args + 1

def sizeAll : List Expression → Nat
  | [] => 0
  | e :: es => e.size + sizeAll es

end

/-- The indices of expressions that stand one after the other, the first one at `base`. -/
def positions (base : Nat) : List Expression → List NodeId
  | [] => []
  | e :: es => base :: positions (base + e.size) es

mutual

/-- The nodes of an expression that stands at `base`, each before its arguments. -/
def nodes (parent : Option NodeId) (base : Nat) : Expression → List Node
  | node head span args =>
    ⟨head, span, parent, positions (base + 1) args⟩ :: nodesAll (some base) (base + 1) args

def nodesAll (parent : Option NodeId) (base : Nat) : List Expression → List Node
  | [] => []
  | e :: es => e.nodes parent base ++ nodesAll parent (base + e.size) es

end

/-- The arena that holds an expression and nothing else. -/
def arena (e : Expression) : Arena := ⟨(e.nodes none 0).toArray, some 0⟩

mutual

/-- The expression as a tree, when it stands at `base`. -/
def tree (base : Nat) : Expression → Tree
  | node head span args => .node base head span (treeAll (base + 1) args)

def treeAll (base : Nat) : List Expression → List Tree
  | [] => []
  | e :: es => e.tree base :: treeAll (base + e.size) es

end

theorem positions_append (base : Nat) (es fs : List Expression) :
    positions base (es ++ fs) = positions base es ++ positions (base + sizeAll es) fs := by
  induction es generalizing base with
  | nil => simp [positions, sizeAll]
  | cons e es ih => simp only [List.cons_append, positions, sizeAll, ih, Nat.add_assoc]

theorem nodesAll_append (parent : Option NodeId) (base : Nat) (es fs : List Expression) :
    nodesAll parent base (es ++ fs) = nodesAll parent base es ++ nodesAll parent (base + sizeAll es) fs := by
  induction es generalizing base with
  | nil => simp [nodesAll, sizeAll]
  | cons e es ih => simp only [List.cons_append, nodesAll, sizeAll, ih, Nat.add_assoc, List.append_assoc]

theorem length_nodesAll_of {es : List Expression}
    (h : ∀ e ∈ es, ∀ parent base, (e.nodes parent base).length = e.size) (parent : Option NodeId) (base : Nat) :
    (nodesAll parent base es).length = sizeAll es := by
  induction es generalizing base with
  | nil => rfl
  | cons e es ih =>
    rw [nodesAll, List.length_append, h e (List.mem_cons_self ..), ih fun f hf => h f (List.mem_cons_of_mem _ hf)]
    rfl

@[simp] theorem length_nodes (e : Expression) : ∀ parent base, (e.nodes parent base).length = e.size := by
  induction e with
  | node head span args ih =>
    intro parent base
    rw [nodes, List.length_cons, length_nodesAll_of ih, size]

@[simp] theorem length_nodesAll (parent : Option NodeId) (base : Nat) (es : List Expression) :
    (nodesAll parent base es).length = sizeAll es :=
  length_nodesAll_of (fun e _ => e.length_nodes) parent base

@[simp] theorem size_arena (e : Expression) : e.arena.size = e.size := by
  simp [arena, Arena.size]

theorem parent_of_mem_nodesAll {es : List Expression} {q : Nat}
    (h : ∀ e ∈ es, ∀ {base : Nat} {n : Node} {p : Nat}, n ∈ e.nodes (some q) base → n.parent = some p →
      some q = some p ∨ p < base + e.size) :
    ∀ {base : Nat} {n : Node} {p : Nat}, n ∈ nodesAll (some q) base es → n.parent = some p →
      p = q ∨ p < base + sizeAll es := by
  induction es with
  | nil => intro base n p hn; cases hn
  | cons e es ih =>
    intro base n p hn hp
    rw [nodesAll, List.mem_append] at hn
    rw [sizeAll]
    rcases hn with hn | hn
    · rcases h e (List.mem_cons_self ..) hn hp with h | h
      · cases h; exact .inl rfl
      · exact .inr (by omega)
    · rcases ih (fun f hf => h f (List.mem_cons_of_mem _ hf)) hn hp with h | h
      · exact .inl h
      · exact .inr (by omega)

/-- The parent of a node is the parent of the whole expression or stands before its end. -/
theorem parent_of_mem_nodes (e : Expression) : ∀ {parent : Option NodeId} {base : Nat} {n : Node} {p : Nat},
    n ∈ e.nodes parent base → n.parent = some p → parent = some p ∨ p < base + e.size := by
  induction e with
  | node head span args ih =>
    intro parent base n p hn hp
    rw [nodes, List.mem_cons] at hn
    rw [size]
    rcases hn with rfl | hn
    · exact .inl hp
    · rcases parent_of_mem_nodesAll (fun e he => ih e he) hn hp with rfl | h
      · exact .inr (by omega)
      · exact .inr (by omega)

end Expression

/-! ## Unfolding the arena of an expression -/

namespace Arena

/-- The nodes of a list stand in the arena one after the other, the first one at `base`. -/
def Stores (a : Arena) (base : Nat) (ns : List Node) : Prop :=
  ∀ i n, ns[i]? = some n → a.node? (base + i) = some n

theorem stores_cons {a : Arena} {base : Nat} {n : Node} {ns : List Node} (h : a.Stores base (n :: ns)) :
    a.node? base = some n ∧ a.Stores (base + 1) ns := by
  refine ⟨h 0 n rfl, fun i m hm => ?_⟩
  have := h (i + 1) m (by simpa using hm)
  rwa [show base + (i + 1) = base + 1 + i by omega] at this

theorem stores_append {a : Arena} {base : Nat} {ms ns : List Node} (h : a.Stores base (ms ++ ns)) :
    a.Stores base ms ∧ a.Stores (base + ms.length) ns := by
  constructor
  · intro i n hn
    obtain ⟨hi, _⟩ := List.getElem?_eq_some_iff.1 hn
    exact h i n (by rw [List.getElem?_append_left hi]; exact hn)
  · intro i n hn
    have := h (ms.length + i) n (by rw [List.getElem?_append_right (by omega)]; simpa using hn)
    rwa [← Nat.add_assoc] at this

/-- One node is a child of the other. -/
def Child (a : Arena) (parent child : NodeId) : Prop := child ∈ a.children parent

/-- One node hangs below the other, or is that node. -/
def Below (a : Arena) : NodeId → NodeId → Prop := Relation.ReflTransGen a.Child

end Arena

namespace Expression

theorem stores_arena (e : Expression) : e.arena.Stores 0 (e.nodes none 0) := by
  intro i n hn
  rw [Nat.zero_add]
  simpa [arena, Arena.node?] using hn

theorem mapM_treeWithin {a : Arena} {depth : Nat} {parent : Option NodeId} :
    ∀ {es : List Expression} {base : Nat},
      (∀ e ∈ es, ∀ {parent : Option NodeId} {base : Nat}, a.Stores base (e.nodes parent base) →
        a.treeWithin depth base = some (e.tree base)) →
      a.Stores base (nodesAll parent base es) →
      (positions base es).mapM (a.treeWithin depth) = some (treeAll base es)
  | [], base, _, _ => rfl
  | e :: es, base, h, hs => by
    obtain ⟨he, hes⟩ := Arena.stores_append hs
    rw [length_nodes] at hes
    rw [positions, List.mapM_cons, h e (List.mem_cons_self ..) he,
      mapM_treeWithin (fun f hf => h f (List.mem_cons_of_mem _ hf)) hes]
    rfl

theorem size_le_sizeAll {e : Expression} : ∀ {es : List Expression}, e ∈ es → e.size ≤ sizeAll es
  | f :: es, h => by
    rw [sizeAll]
    rcases List.mem_cons.1 h with rfl | h
    · omega
    · have := size_le_sizeAll h; omega

/-- Where the nodes of an expression stand, the arena unfolds to the expression. -/
theorem treeWithin_eq (e : Expression) : ∀ {a : Arena} {depth : Nat} {parent : Option NodeId} {base : Nat},
    e.size ≤ depth → a.Stores base (e.nodes parent base) → a.treeWithin depth base = some (e.tree base) := by
  induction e with
  | node head span args ih =>
    intro a depth parent base hd hs
    rw [size] at hd
    obtain ⟨depth, rfl⟩ : ∃ k, depth = k + 1 := ⟨depth - 1, by omega⟩
    obtain ⟨hn, hargs⟩ := Arena.stores_cons hs
    have hmap : (positions (base + 1) args).mapM (a.treeWithin depth) = some (treeAll (base + 1) args) :=
      mapM_treeWithin (fun e he {_ _} h => ih e he (by have := size_le_sizeAll he; omega) h) hargs
    rw [Arena.treeWithin, hn]
    simp only [hmap, Option.map_some, tree]

/-- The arena of an expression unfolds to it. -/
theorem tree?_arena (e : Expression) : e.arena.tree? = some (e.tree 0) := by
  show e.arena.treeWithin e.arena.size 0 = some (e.tree 0)
  exact e.treeWithin_eq (by rw [size_arena]) e.stores_arena

theorem below_of_index_all {a : Arena} {parent : Option NodeId} : ∀ {es : List Expression} {base i : Nat},
    (∀ e ∈ es, ∀ {parent : Option NodeId} {base i : Nat}, a.Stores base (e.nodes parent base) → base ≤ i →
      i < base + e.size → a.Below base i) →
    a.Stores base (nodesAll parent base es) → base ≤ i → i < base + sizeAll es →
    ∃ k ∈ positions base es, a.Below k i
  | [], base, i, _, _, h1, h2 => by rw [sizeAll] at h2; omega
  | e :: es, base, i, h, hs, h1, h2 => by
    obtain ⟨he, hes⟩ := Arena.stores_append hs
    rw [length_nodes] at hes
    rw [sizeAll] at h2
    by_cases hi : i < base + e.size
    · exact ⟨base, List.mem_cons_self .., h e (List.mem_cons_self ..) he h1 hi⟩
    · obtain ⟨k, hk, hb⟩ := below_of_index_all (fun f hf => h f (List.mem_cons_of_mem _ hf)) hes
        (Nat.le_of_not_lt hi) (by omega)
      exact ⟨k, List.mem_cons_of_mem _ hk, hb⟩

theorem below_of_index (e : Expression) : ∀ {a : Arena} {parent : Option NodeId} {base i : Nat},
    a.Stores base (e.nodes parent base) → base ≤ i → i < base + e.size → a.Below base i := by
  induction e with
  | node head span args ih =>
    intro a parent base i hs h1 h2
    obtain ⟨hn, hargs⟩ := Arena.stores_cons hs
    rw [size] at h2
    by_cases hi : i = base
    · subst hi; exact .refl
    · obtain ⟨k, hk, hb⟩ := below_of_index_all (fun e he => ih e he) hargs (by omega) (i := i) (by omega)
      refine .head ?_ hb
      show k ∈ a.children base
      rw [Arena.children, hn]
      exact hk

/-- Every node in the arena of an expression hangs below the root. -/
theorem below_root (e : Expression) {i : Nat} (h : i < e.arena.size) : e.arena.Below 0 i := by
  rw [size_arena] at h
  exact e.below_of_index e.stores_arena (Nat.zero_le i) (by omega)

end Expression

/-! ## The expression that a tree writes -/

namespace Tree

mutual

/-- The tree without its indices. -/
def expression : Tree → Expression
  | node _ head span children => .node head span (expressionAll children)

def expressionAll : List Tree → List Expression
  | [] => []
  | t :: ts => t.expression :: expressionAll ts

end

end Tree

theorem Expression.expressionAll_treeAll {es : List Expression} (h : ∀ e ∈ es, ∀ base, (e.tree base).expression = e) :
    ∀ base, Tree.expressionAll (treeAll base es) = es := by
  induction es with
  | nil => intro base; rfl
  | cons e es ih =>
    intro base
    rw [treeAll, Tree.expressionAll, h e (List.mem_cons_self ..), ih fun f hf => h f (List.mem_cons_of_mem _ hf)]

@[simp] theorem Expression.expression_tree (e : Expression) : ∀ base, (e.tree base).expression = e := by
  induction e with
  | node head span args ih =>
    intro base
    rw [tree, Tree.expression, expressionAll_treeAll ih]

end RoadPolicy
