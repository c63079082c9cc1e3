/-
Lowering is a recursion. The lowering of an arena walks its nodes and keeps their operands in a table,
where each operator takes those of its children. On a tree whose nodes are all different this is the plain
recursion that lowers the children of a node from left to right and then applies its head: the same operand,
the same first error and the same names taken.
-/
import RoadPolicy.Policy.Lowering
import RoadPolicy.Proofs.Computation
import RoadPolicy.Proofs.Language.PostOrder

namespace RoadPolicy

namespace Tree

mutual

/-- The operand of a tree. -/
def lower (registry : Registry) : Tree → Lowering Operand
  | node _ head span children => do
    let args ← lowerAll registry children
    head.operand registry span args

/-- The operands of trees, from left to right. -/
def lowerAll (registry : Registry) : List Tree → Lowering (List Operand)
  | [] => pure []
  | t :: ts => do
    let o ← t.lower registry
    let os ← lowerAll registry ts
    return o :: os

end

theorem run_operator {registry : Registry} (op : Operator) (span : Span) (args : List Operand) (names : NameSupply) :
    ((Head.operator op).operand registry span args).run.run names =
      match (op.apply args).run.run names with
      | (.ok t, names') => (.ok (.term t), names')
      | (.error cause, names') => (.error (.typeMismatch op cause span), names') := rfl

end Tree

/-- The topmost nodes of trees are among all of their nodes. -/
theorem Tree.map_id_sublist : ∀ ts : List Tree, (ts.map Tree.id).Sublist (Tree.postOrderAll ts)
  | [] => .slnil
  | t :: ts => by
    rw [List.map_cons, Tree.postOrderAll, ← List.singleton_append]
    exact (List.singleton_sublist.2 t.id_mem_postOrder).append (map_id_sublist ts)

/-! ## The table of operands -/

namespace Operands

/-- A table keeps its size and all entries outside of a list of nodes. -/
def Keeps (ids : List NodeId) (done done' : Operands) : Prop :=
  done'.size = done.size ∧ ∀ i ∉ ids, done'[i]? = done[i]?

theorem Keeps.mono {ids ids' : List NodeId} {a b : Operands} (h : Keeps ids a b) (hids : ids ⊆ ids') : Keeps ids' a b :=
  ⟨h.1, fun i hi => h.2 i fun hmem => hi (hids hmem)⟩

theorem Keeps.trans {ids ids' : List NodeId} {a b c : Operands} (h : Keeps ids a b) (h' : Keeps ids' b c) :
    Keeps (ids ++ ids') a c := by
  refine ⟨h'.1.trans h.1, fun i hi => ?_⟩
  rw [List.mem_append, not_or] at hi
  rw [h'.2 i hi.2, h.2 i hi.1]

theorem keeps_set (done : Operands) (id : NodeId) (o : Option Operand) : Keeps [id] done (done.setIfInBounds id o) := by
  refine ⟨by simp, fun i hi => ?_⟩
  rw [List.mem_singleton] at hi
  exact Array.getElem?_setIfInBounds_ne (Ne.symm hi)

theorem keeps_takeAll (cs : List NodeId) : ∀ done : Operands, Keeps cs done (done.takeAll cs).2 := by
  induction cs with
  | nil => exact fun done => ⟨rfl, fun _ _ => rfl⟩
  | cons c cs ih => exact fun done => (done.keeps_set c none).trans (ih _)

/-- What is taken from different nodes is what they have. -/
theorem takeAll_fst {cs : List NodeId} (hnd : cs.Nodup) : ∀ done : Operands,
    (done.takeAll cs).1 = cs.filterMap fun c => (done[c]?).join := by
  induction cs with
  | nil => exact fun _ => rfl
  | cons c cs ih =>
    intro done
    rw [List.nodup_cons] at hnd
    have hrest : cs.filterMap (fun d => ((done.setIfInBounds c none)[d]?).join) =
        cs.filterMap fun d => (done[d]?).join := by
      refine List.filterMap_congr fun d hd => ?_
      have hcd : c ≠ d := fun h => hnd.1 (h ▸ hd)
      rw [Array.getElem?_setIfInBounds_ne hcd]
    have hcons : (done.takeAll (c :: cs)).1 = (done[c]?).join.toList ++ (takeAll (done.setIfInBounds c none) cs).1 := rfl
    rw [hcons, ih hnd.2, hrest, List.filterMap_cons]
    rcases (done[c]?).join with _ | o <;> rfl

end Operands

variable {registry : Registry} {a : Arena}

theorem run_lowerNode {id : NodeId} {n : Node} (hn : a.node? id = some n) (done : Operands) (names : NameSupply) :
    (lowerNode registry a id).run.run (done, names) =
      match (n.head.operand registry n.span (done.takeAll n.takes).1).run.run names with
      | (.ok o, names') => (.ok (), ((done.takeAll n.takes).2.setIfInBounds id (some o), names'))
      | (.error e, names') => (.error e, ((done.takeAll n.takes).2, names')) := by
  show lowerNode registry a id (done, names) = _
  rw [lowerNode, hn]
  rfl

theorem Node.takes_subset (n : Node) : n.takes ⊆ n.children := by
  unfold takes
  split
  · exact List.Subset.refl _
  · exact List.nil_subset _

/-- A leaf takes no operands, but it does not look at any either. -/
theorem Node.operand_takes (n : Node) (done : Operands) :
    n.head.operand registry n.span (done.takeAll n.takes).1 =
      n.head.operand registry n.span (done.takeAll n.children).1 := by
  rcases n with ⟨head, span, parent, children⟩
  cases head <;> rfl

/-- Lowering the nodes of a tree leaves its operand in the table, or fails as the recursion does. -/
def LowersAs (registry : Registry) (a : Arena) (t : Tree) : Prop :=
  ∀ (done : Operands) (names : NameSupply), (∀ i ∈ t.postOrder, i < done.size) →
    ∃ done' : Operands, Operands.Keeps t.postOrder done done' ∧
      match (t.lower registry).run.run names with
      | (.ok o, names') =>
        (forM t.postOrder (lowerNode registry a)).run.run (done, names) = (.ok (), (done', names')) ∧
          done'[t.id]? = some (some o)
      | (.error e, names') =>
        (forM t.postOrder (lowerNode registry a)).run.run (done, names) = (.error e, (done', names'))

theorem lowersAll {ts : List Tree} (h : ∀ t ∈ ts, LowersAs registry a t) (hnd : (Tree.postOrderAll ts).Nodup)
    (done : Operands) (names : NameSupply) (hin : ∀ i ∈ Tree.postOrderAll ts, i < done.size) :
    ∃ done' : Operands, Operands.Keeps (Tree.postOrderAll ts) done done' ∧
      match (Tree.lowerAll registry ts).run.run names with
      | (.ok os, names') =>
        (forM (Tree.postOrderAll ts) (lowerNode registry a)).run.run (done, names) = (.ok (), (done', names')) ∧
          ts.map (fun t => done'[t.id]?) = os.map fun o => some (some o)
      | (.error e, names') =>
        (forM (Tree.postOrderAll ts) (lowerNode registry a)).run.run (done, names) = (.error e, (done', names')) := by
  induction ts generalizing done names with
  | nil => exact ⟨done, ⟨rfl, fun _ _ => rfl⟩, rfl, rfl⟩
  | cons t ts ih =>
    rw [Tree.postOrderAll, List.nodup_append] at hnd
    rw [Tree.postOrderAll, List.forall_mem_append] at hin
    obtain ⟨done₁, hkeep₁, hrun₁⟩ := h t (List.mem_cons_self ..) done names hin.1
    rw [Tree.lowerAll, run_bind, Tree.postOrderAll, List.forM_append, run_bind]
    rcases hlower : (t.lower registry).run.run names with ⟨e | o, names₁⟩
    · rw [hlower] at hrun₁
      refine ⟨done₁, hkeep₁.mono (List.subset_append_left ..), ?_⟩
      simp only [hrun₁]
    · rw [hlower] at hrun₁
      obtain ⟨done₂, hkeep₂, hrun₂⟩ := ih (fun u hu => h u (List.mem_cons_of_mem _ hu)) hnd.2.1 done₁ names₁
        fun i hi => by rw [hkeep₁.1]; exact hin.2 i hi
      refine ⟨done₂, hkeep₁.trans hkeep₂, ?_⟩
      simp only [hrun₁.1, run_bind]
      rcases hrest : (Tree.lowerAll registry ts).run.run names₁ with ⟨e | os, names₂⟩
      · rw [hrest] at hrun₂
        exact hrun₂
      · rw [hrest] at hrun₂
        refine ⟨hrun₂.1, ?_⟩
        -- the nodes after `t` are others, so its operand is still there
        have hid : t.id ∉ Tree.postOrderAll ts := fun hmem => hnd.2.2 _ t.id_mem_postOrder _ hmem rfl
        rw [List.map_cons, List.map_cons, hkeep₂.2 _ hid, hrun₁.2, hrun₂.2]

theorem filterMap_operands {done : Operands} {ts : List Tree} {os : List Operand}
    (h : ts.map (fun t => done[t.id]?) = os.map fun o => some (some o)) :
    (ts.map Tree.id).filterMap (fun c => (done[c]?).join) = os := by
  have hcomp : (ts.map Tree.id).filterMap (fun c => (done[c]?).join) =
      (ts.map fun t => done[t.id]?).filterMap Option.join := by
    rw [List.filterMap_map, List.filterMap_map]
    rfl
  rw [hcomp, h, List.filterMap_map]
  simp

theorem lowersAs {t : Tree} (h : a.Holds t) (hnd : t.postOrder.Nodup) : LowersAs registry a t := by
  induction h with
  | @node id n children hn hids hall ih =>
    intro done names hin
    rw [Tree.postOrder] at hnd hin ⊢
    rw [List.nodup_append] at hnd
    rw [List.forall_mem_append] at hin
    have hchildren : ∀ t ∈ children, LowersAs registry a t := fun t ht =>
      ih t ht (Tree.nodup_postOrder_of_mem hnd.1 ht)
    obtain ⟨done₁, hkeep, hrun⟩ := lowersAll hchildren hnd.1 done names hin.1
    have hlast : forM [id] (lowerNode registry a) = lowerNode registry a id := by simp
    rw [Tree.lower, run_bind, List.forM_append, run_bind, hlast]
    rcases hlower : (Tree.lowerAll registry children).run.run names with ⟨e | os, names₁⟩
    · -- a child has failed, and the node itself is not visited any more
      rw [hlower] at hrun
      refine ⟨done₁, hkeep.mono (List.subset_append_left ..), ?_⟩
      simp only [hrun]
    · rw [hlower] at hrun
      have hargs : (done₁.takeAll n.children).1 = os := by
        rw [hids, Operands.takeAll_fst ((Tree.map_id_sublist children).nodup hnd.1)]
        exact filterMap_operands hrun.2
      have htaken : n.takes ⊆ Tree.postOrderAll children ++ [id] := fun c hc =>
        List.mem_append_left _ ((Tree.map_id_sublist children).subset (hids ▸ n.takes_subset hc))
      have hkeep₂ : Operands.Keeps (Tree.postOrderAll children ++ [id]) done (done₁.takeAll n.takes).2 :=
        (hkeep.trans (Operands.keeps_takeAll n.takes done₁)).mono
          (List.append_subset.2 ⟨List.subset_append_left .., htaken⟩)
      simp only [hrun.1, run_lowerNode hn, n.operand_takes, hargs]
      rcases (n.head.operand registry n.span os).run.run names₁ with ⟨e | o, names₂⟩
      · exact ⟨(done₁.takeAll n.takes).2, hkeep₂, rfl⟩
      · refine ⟨(done₁.takeAll n.takes).2.setIfInBounds id (some o), ?_, rfl, ?_⟩
        · exact (hkeep₂.trans (Operands.keeps_set _ id (some o))).mono (List.append_subset.2
            ⟨List.Subset.refl _, List.subset_append_right ..⟩)
        · refine Array.getElem?_setIfInBounds_self_of_lt ?_
          rw [hkeep₂.1]
          exact hin.2 id (List.mem_singleton_self _)

/-! ## The whole expression -/

theorem run_lower {root : NodeId} (hroot : a.root = some root) (names : NameSupply) :
    (lower registry a).run.run names =
      match (a.walk root (lowerNode registry a)).run.run (Array.replicate a.size none, names) with
      | (.ok (), (done, names)) => (formulaOf (((a.node? root).map (·.span)).getD ⟨0, 0⟩) (done[root]?).join, names)
      | (.error e, (_, names)) => (.error e, names) := by
  show lower registry a names = _
  rw [lower, hroot]
  rfl

/-- Lowering the arena of a tree is lowering the tree, of which a formula has to come. -/
theorem lower_eq {t : Tree} (ht : a.tree? = some t) (hnd : t.postOrder.Nodup) (hin : ∀ i ∈ t.postOrder, i < a.size)
    (hsize : t.size ≤ a.size) (names : NameSupply) :
    (lower registry a).run.run names =
      match (t.lower registry).run.run names with
      | (.ok o, names') => (formulaOf t.span (some o), names')
      | (.error e, names') => (.error e, names') := by
  obtain ⟨root, hroot, hunfold⟩ := Option.bind_eq_some_iff.1 ht
  obtain ⟨hholds, rfl⟩ := Arena.holds_of_treeWithin hunfold
  have hspan : ((a.node? t.id).map (·.span)).getD ⟨0, 0⟩ = t.span := by
    cases hholds with
    | node hn _ _ => simp [Tree.id, hn, Tree.span]
  have hwalk : a.walk t.id (lowerNode registry a) = forM t.postOrder (lowerNode registry a) :=
    Arena.walk_eq_forM hholds hsize
  have hlowers : LowersAs registry a t := lowersAs hholds hnd
  obtain ⟨done, -, hrun⟩ := hlowers (Array.replicate a.size none) names (by simpa using hin)
  rw [run_lower hroot, hwalk, hspan]
  rcases ht : (t.lower registry).run.run names with ⟨e | o, names'⟩
  · rw [ht] at hrun
    rw [hrun]
  · rw [ht] at hrun
    simp only [hrun.1, hrun.2, Option.join_some]

/-- Lowering what has been read. -/
theorem lower_arena (registry : Registry) (e : Expression) (names : NameSupply) :
    (lower registry e.arena).run.run names =
      match ((e.tree 0).lower registry).run.run names with
      | (.ok o, names') => (formulaOf (e.tree 0).span (some o), names')
      | (.error e, names') => (.error e, names') := by
  refine lower_eq e.tree?_arena (e.nodup_postOrder_tree 0) (fun i hi => ?_) ?_ names
  · rw [e.size_arena]
    simpa using (e.mem_postOrder_tree.1 hi).2
  · rw [e.size_tree, e.size_arena]

end RoadPolicy
