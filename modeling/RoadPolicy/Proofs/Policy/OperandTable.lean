/-
The table of operands during a lowering. Between two visits it holds the operands of exactly those nodes
that have been visited and whose operand no operator has taken yet; what one visit keeps is shown first
and then what all of them keep. As children are visited before their parent and have no other one, each
operator finds the operands of all its children there, and takes them for good. So lowering whatever
calls have built is the plain recursion on its tree.
-/
import RoadPolicy.Proofs.Language.SubtreeWalk
import RoadPolicy.Proofs.Policy.RecursiveLowering

namespace RoadPolicy

/-! ## Entries of a table -/

namespace Operands

/-- There is an operand for the node. -/
def Has (done : Operands) (i : NodeId) : Prop := ∃ o, done[i]? = some (some o)

variable {done : Operands} {cs : List NodeId} {i x : NodeId}

theorem has_iff_join : done.Has i ↔ ∃ o, (done[i]?).join = some o := by
  simp only [Has, Option.join_eq_some_iff]

theorem Keeps.has_iff {ids : List NodeId} {done' : Operands} (h : Keeps ids done done') (hi : i ∉ ids) :
    done'.Has i ↔ done.Has i := by
  rw [Has, Has, h.2 i hi]

theorem not_has_replicate (size : Nat) : ¬ Has (Array.replicate size none) i := by
  rintro ⟨o, ho⟩
  rw [Array.getElem?_replicate] at ho
  split at ho
  · cases ho
  · cases ho

theorem has_set (o : Operand) (hx : x < done.size) : Has (done.setIfInBounds x (some o)) i ↔ i = x ∨ done.Has i := by
  by_cases hi : i = x
  · subst hi
    exact iff_of_true ⟨o, Array.getElem?_setIfInBounds_self_of_lt hx⟩ (.inl rfl)
  · rw [(done.keeps_set x (some o)).has_iff (by simpa using hi), or_iff_right hi]

theorem not_has_set_none : ¬ Has (done.setIfInBounds i none) i := by
  rintro ⟨o, ho⟩
  rw [Array.getElem?_setIfInBounds_self] at ho
  split at ho
  · cases ho
  · cases ho

/-- What has been taken is gone. -/
theorem not_has_takeAll (hi : i ∈ cs) : ¬ (done.takeAll cs).2.Has i := by
  induction cs generalizing done with
  | nil => cases hi
  | cons c cs ih =>
    have hcons : (done.takeAll (c :: cs)).2 = (takeAll (done.setIfInBounds c none) cs).2 := rfl
    rw [hcons]
    by_cases hmem : i ∈ cs
    · exact ih hmem
    · obtain rfl : i = c := (List.mem_cons.1 hi).resolve_right hmem
      rw [(keeps_takeAll cs _).has_iff hmem]
      exact not_has_set_none

theorem has_takeAll_iff : (done.takeAll cs).2.Has i ↔ done.Has i ∧ i ∉ cs := by
  by_cases hi : i ∈ cs
  · exact iff_of_false (not_has_takeAll hi) fun h => h.2 hi
  · rw [(keeps_takeAll cs done).has_iff hi, and_iff_left hi]

/-- From different nodes that all have one, as many operands are taken as there are nodes, in their order. -/
theorem map_some_takeAll (hnd : cs.Nodup) (hall : ∀ c ∈ cs, done.Has c) :
    (done.takeAll cs).1.map some = cs.map fun c => (done[c]?).join := by
  rw [takeAll_fst hnd]
  clear hnd
  induction cs with
  | nil => rfl
  | cons c cs ih =>
    rw [List.forall_mem_cons] at hall
    obtain ⟨o, ho⟩ := has_iff_join.1 hall.1
    rw [List.filterMap_cons, ho, List.map_cons, List.map_cons, ih hall.2, ho]

end Operands

/-! ## Children first -/

namespace Arena

variable {a : Arena} {t : Tree} {i p c x : NodeId}

/-- The nodes whose operands a node takes. -/
def takes (a : Arena) (id : NodeId) : List NodeId := ((a.node? id).map Node.takes).getD []

theorem takes_eq {n : Node} (hn : a.node? x = some n) : a.takes x = n.takes := by
  rw [takes, hn]
  rfl

theorem child_of_mem_takes (hi : i ∈ a.takes p) : a.Child p i := by
  rcases hn : a.node? p with _ | n
  · rw [takes, hn] at hi
    cases hi
  · rw [takes_eq hn] at hi
    rw [Child, children_of_node? hn]
    exact n.takes_subset hi

/-- Each of the nodes stands behind all its children; `seen` stand before them all. -/
def ChildrenFirst (a : Arena) : List NodeId → List NodeId → Prop
  | _, [] => True
  | seen, x :: rest => (∀ c, a.Child x c → c ∈ seen) ∧ a.ChildrenFirst (seen ++ [x]) rest

theorem childrenFirst_append {seen xs ys : List NodeId} :
    a.ChildrenFirst seen (xs ++ ys) ↔ a.ChildrenFirst seen xs ∧ a.ChildrenFirst (seen ++ xs) ys := by
  induction xs generalizing seen with
  | nil => rw [List.nil_append, List.append_nil, ChildrenFirst, true_and]
  | cons x xs ih =>
    rw [List.cons_append, ChildrenFirst, ChildrenFirst, ih, List.append_assoc, List.singleton_append, and_assoc]

theorem ChildrenFirst.child_mem {seen ids : List NodeId} (h : a.ChildrenFirst seen ids) (hp : p ∈ ids)
    (hc : a.Child p c) : c ∈ seen ++ ids := by
  induction ids generalizing seen with
  | nil => cases hp
  | cons x ids ih =>
    rcases List.mem_cons.1 hp with rfl | hp
    · exact List.mem_append_left _ (h.1 c hc)
    · have hmem := ih h.2 hp
      rwa [List.append_assoc] at hmem

/-- Post-order puts children first. -/
theorem Holds.childrenFirst (h : a.Holds t) : ∀ seen, a.ChildrenFirst seen t.postOrder := by
  induction h with
  | @node id n children hn hids hall ih =>
    have hinner : ∀ seen, a.ChildrenFirst seen (Tree.postOrderAll children) := by
      clear hids hall
      induction children with
      | nil => exact fun _ => trivial
      | cons u us ihus =>
        rw [List.forall_mem_cons] at ih
        exact fun seen => childrenFirst_append.2 ⟨ih.1 seen, ihus ih.2 _⟩
    intro seen
    refine childrenFirst_append.2 ⟨hinner seen, fun c hc => ?_, trivial⟩
    rw [Child, children_of_node? hn, hids] at hc
    exact List.mem_append_right _ ((Tree.map_id_sublist children).subset hc)

end Arena

/-! ## One visit and all visits -/

/-- The table after some visits: it has the operands of the nodes visited, less those that were taken. -/
structure Operands.After (a : Arena) (visited : List NodeId) (done : Operands) : Prop where
  size_eq : done.size = a.size
  has_iff : ∀ i, done.Has i ↔ i ∈ visited ∧ ∀ p ∈ visited, i ∉ a.takes p

section

variable {registry : Registry} {a : Arena} {before after : List NodeId} {x : NodeId} {n : Node} {done : Operands}

/-- Where a walk stands: the nodes before `x` have been visited, and `x` comes next. -/
structure Arena.Next (a : Arena) (before : List NodeId) (x : NodeId) : Prop where
  forest : a.Forest
  new : x ∉ before
  earlier : a.ChildrenFirst [] before
  children : ∀ c, a.Child x c → c ∈ before

namespace Arena.Next

/-- Nobody has taken what the next node is going to take. -/
theorem child_not_taken (h : a.Next before x) {c : NodeId} (hc : a.Child x c) : ∀ p ∈ before, c ∉ a.takes p := by
  intro p hp hmem
  obtain rfl := h.forest.parent_unique hc (child_of_mem_takes hmem)
  exact h.new hp

/-- The operand of the next node is taken later, if at all. -/
theorem not_taken (h : a.Next before x) : ∀ p ∈ before ++ [x], x ∉ a.takes p := by
  intro p hp hmem
  have hchild : a.Child p x := child_of_mem_takes hmem
  rcases List.mem_append.1 hp with hp | hp
  · exact h.new (h.earlier.child_mem hp hchild)
  · obtain rfl := List.mem_singleton.1 hp
    exact h.new (h.children p hchild)

end Arena.Next

namespace Operands.After

/-- The next node finds all that it takes. -/
theorem has_takes (h : After a before done) (hnext : a.Next before x) : ∀ c ∈ a.takes x, done.Has c := fun c hc =>
  (h.has_iff c).2 ⟨hnext.children c (Arena.child_of_mem_takes hc), hnext.child_not_taken (Arena.child_of_mem_takes hc)⟩

/-- One visit: the operand of the node is there, and what it takes is not there any more. -/
theorem visit (h : After a before done) (hnext : a.Next before x) (hn : a.node? x = some n) (o : Operand) :
    After a (before ++ [x]) ((done.takeAll n.takes).2.setIfInBounds x (some o)) := by
  have hsize : (done.takeAll n.takes).2.size = a.size := (keeps_takeAll n.takes done).1.trans h.size_eq
  refine ⟨by simpa using hsize, fun i => ?_⟩
  rw [has_set o (hsize ▸ Arena.lt_of_node? hn), has_takeAll_iff, h.has_iff, List.mem_append, List.mem_singleton]
  by_cases hi : i = x
  · subst hi
    exact iff_of_true (.inl rfl) ⟨.inr rfl, hnext.not_taken⟩
  · rw [or_iff_right hi, or_iff_left hi, List.forall_mem_append, List.forall_mem_singleton, Arena.takes_eq hn, and_assoc]

/-- An operator is applied to the operands of all its children, and none of them is there any more. -/
theorem run_operator (h : After a before done) (hnext : a.Next before x) (hnd : (a.children x).Nodup)
    (hn : a.node? x = some n) {op : Operator} (hop : n.head = .operator op) (names : NameSupply) :
    ∃ args rest, args.map some = n.children.map (fun c => (done[c]?).join) ∧
      (∀ i, Has rest i ↔ done.Has i ∧ i ∉ n.children) ∧
      (lowerNode registry a x).run.run (done, names) =
        match (op.apply args).run.run names with
        | (.ok t, names') => (.ok (), (rest.setIfInBounds x (some (.term t)), names'))
        | (.error cause, names') => (.error (.typeMismatch op cause n.span), (rest, names')) := by
  have htakes : n.takes = n.children := by rw [Node.takes, hop]
  have hall : ∀ c ∈ n.takes, done.Has c := Arena.takes_eq hn ▸ h.has_takes hnext
  have hchildren : n.takes.Nodup := by rwa [htakes, ← Arena.children_of_node? hn]
  refine ⟨(done.takeAll n.takes).1, (done.takeAll n.takes).2, ?_, ?_, ?_⟩
  · rw [map_some_takeAll hchildren hall, htakes]
  · intro i
    rw [has_takeAll_iff, htakes]
  · rw [run_lowerNode hn, hop, Tree.run_operator]
    rcases (op.apply (done.takeAll n.takes).1).run.run names with ⟨cause | u, names'⟩ <;> rfl

end Operands.After

/-- All visits. -/
theorem after_visits (hforest : a.Forest) {names names' : NameSupply} : ∀ {visited : List NodeId} {done : Operands},
    visited.Nodup → a.ChildrenFirst [] visited → (∀ x ∈ visited, x < a.size) →
    (forM visited (lowerNode registry a)).run.run (Array.replicate a.size none, names) = (.ok (), (done, names')) →
    Operands.After a visited done := by
  intro visited
  induction visited using List.reverseRecOn generalizing names' with
  | nil =>
    rintro done - - - hrun
    cases hrun
    exact ⟨by simp, fun i => iff_of_false (Operands.not_has_replicate _) fun h => absurd h.1 List.not_mem_nil⟩
  | append_singleton before x ih =>
    intro done hnd hfirst hin hrun
    rw [List.nodup_append] at hnd
    rw [Arena.childrenFirst_append, List.nil_append] at hfirst
    rw [List.forall_mem_append, List.forall_mem_singleton] at hin
    rw [List.forM_append] at hrun
    obtain ⟨⟨⟩, ⟨done₁, names₁⟩, hbefore, hlast⟩ := run_bind_eq_ok hrun
    have hnew : x ∉ before := fun hx => hnd.2.2 x hx x (List.mem_singleton_self x) rfl
    have hdone : Operands.After a before done₁ := ih hnd.1 hfirst.1 hin.1 hbefore
    obtain ⟨n, hn⟩ := Arena.exists_node?_of_lt hin.2
    have hone : forM [x] (lowerNode registry a) = lowerNode registry a x := by simp
    rw [hone, run_lowerNode hn] at hlast
    rcases hoperand : (n.head.operand registry n.span (done₁.takeAll n.takes).1).run.run names₁ with ⟨e | o, names₂⟩
    · rw [hoperand] at hlast
      cases hlast
    · rw [hoperand] at hlast
      cases hlast
      exact hdone.visit ⟨hforest, hnew, hfirst.1, hfirst.2.1⟩ hn o

end

/-! ## The whole lowering -/

/-- The formula of a tree, by recursion: its operand has to be one. -/
def Tree.formula (registry : Registry) (t : Tree) : Lowering Term := do
  let o ← t.lower registry
  ExceptT.mk (pure (formulaOf t.span (some o)))

namespace Arena

variable {registry : Registry} {a : Arena} {t : Tree}

theorem Built.lower_eq_formula (h : a.Built) (htree : a.tree? = some t) (ht : a.Holds t) :
    lower registry a = t.formula registry := by
  funext names
  refine Eq.trans ?_ (run_bind (t.lower registry) _ names).symm
  refine (lower_eq htree (h.nodup_postOrder ht) (fun i => h.lt_of_mem_postOrder ht) (h.size_le ht) names).trans ?_
  rcases (t.lower registry).run.run names with ⟨e | o, names'⟩ <;> rfl

/-- Anywhere in the walk of a tree, the table is as the visits so far have left it. -/
theorem Built.after_and_next (h : a.Built) (ht : a.Holds t) {before after : List NodeId} {x : NodeId} {done : Operands}
    {names names' : NameSupply} (hsplit : t.postOrder = before ++ x :: after)
    (hrun : (forM before (lowerNode registry a)).run.run (Array.replicate a.size none, names) =
      (.ok (), (done, names'))) : Operands.After a before done ∧ a.Next before x := by
  have hnd : t.postOrder.Nodup := h.nodup_postOrder ht
  have hfirst : a.ChildrenFirst [] t.postOrder := ht.childrenFirst []
  have hin : ∀ i ∈ t.postOrder, i < a.size := fun i => h.lt_of_mem_postOrder ht
  rw [hsplit, List.nodup_append] at hnd
  rw [hsplit, childrenFirst_append] at hfirst
  rw [hsplit, List.forall_mem_append] at hin
  have hnew : x ∉ before := fun hx => hnd.2.2 x hx x List.mem_cons_self rfl
  exact ⟨after_visits h.forest hnd.1 hfirst.1 hin.1 hrun, h.forest, hnew, hfirst.1, hfirst.2.1⟩

/-- Lowering what calls have built is a recursion on its tree: the children of a node from left to right, then the node
with all their operands. The formula, the first error and the names taken are the same. At every moment of the walk the
table has the operands of exactly those nodes that have been visited and not been taken, so the next operator is applied
to as many operands as it has children, the operand of each child once and in order, and leaves none of them behind. -/
theorem lower_is_recursion (edits : List Edit) (hedits : empty.Admits edits) (root : NodeId)
    (hroot : (empty.edited edits).root = some root) (registry : Registry) :
    let a := empty.edited edits
    let order := (a.postOrder root).toList
    (∃ t, a.tree? = some t ∧ a.Holds t ∧ t.id = root ∧ lower registry a = t.formula registry) ∧
    a.walk root (lowerNode registry a) = forM order (lowerNode registry a) ∧
    ∀ names before x after done names₁, order = before ++ x :: after →
      (forM before (lowerNode registry a)).run.run (Array.replicate a.size none, names) = (.ok (), (done, names₁)) →
      (∀ i, done.Has i ↔ i ∈ before ∧ ∀ p ∈ before, i ∉ a.takes p) ∧
      ∃ n, a.node? x = some n ∧ ∀ op, n.head = .operator op →
        ∃ args rest, args.map some = n.children.map (fun c => (done[c]?).join) ∧
          (∀ i, Operands.Has rest i ↔ done.Has i ∧ i ∉ n.children) ∧
          (lowerNode registry a x).run.run (done, names₁) =
            match (op.apply args).run.run names₁ with
            | (.ok t, names₂) => (.ok (), (rest.setIfInBounds x (some (.term t)), names₂))
            | (.error cause, names₂) => (.error (.typeMismatch op cause n.span), (rest, names₂)) := by
  intro a order
  have hbuilt : a.Built := Built.empty.edited hedits
  obtain ⟨t, htree, ht, rfl⟩ := hbuilt.forest.exists_tree? hroot
  have horder : order = t.postOrder := hbuilt.postOrder_eq ht
  refine ⟨⟨t, htree, ht, rfl, hbuilt.lower_eq_formula htree ht⟩, ?_, ?_⟩
  · rw [horder]
    exact walk_eq_forM ht (hbuilt.size_le ht)
  · intro names before x after done names₁ hsplit hrun
    have hmem : x ∈ t.postOrder := by simp [← horder, hsplit]
    obtain ⟨hdone, hnext⟩ := hbuilt.after_and_next ht (horder ▸ hsplit) hrun
    obtain ⟨n, hn⟩ := exists_node?_of_lt (hbuilt.lt_of_mem_postOrder ht hmem)
    exact ⟨hdone.has_iff, n, hn, fun op hop => hdone.run_operator hnext (hbuilt.nodup_children x) hn hop names₁⟩

/-- A leaf with a child below an operator. Before the root is visited, the table has what the root takes and, for good,
the operand below the leaf. -/
theorem lower_is_recursion_below_leaf :
    let edits := [Edit.push (.operator .and) ⟨0, 3⟩, .setRoot 0, .push (.literal (.bool true)) ⟨4, 4⟩, .addChild 0 1,
      .push (.operator .not) ⟨9, 3⟩, .addChild 0 2, .push (.literal (.int "5")) ⟨0, 1⟩, .addChild 1 3,
      .push (.literal (.bool false)) ⟨13, 5⟩, .addChild 2 4]
    let a := empty.edited edits
    let done : Operands := #[none, some (.term (.bool true)), some (.term (.not (.bool false))), some (.term (.int 5)),
      none]
    empty.Admits edits ∧ a.root = some 0 ∧ (a.postOrder 0).toList = [3, 1, 4, 2, 0] ∧
      (lower .empty a).run.run ⟨7⟩ = (.ok (.and [.bool true, .not (.bool false)]), ⟨7⟩) ∧
      (forM [3, 1, 4, 2] (lowerNode .empty a)).run.run (Array.replicate a.size none, ⟨7⟩) = (.ok (), (done, ⟨7⟩)) ∧
      done.Has 3 ∧ ¬ done.Has 4 ∧
      ∃ args : List Operand, args.length = 2 ∧ args.map some = [1, 2].map fun c => (done[c]?).join := by
  intro edits a done
  have hedits : empty.Admits edits := by decide
  have hroot : a.root = some 0 := by decide
  have horder : (a.postOrder 0).toList = [3, 1, 4, 2, 0] := by decide
  have hrun : (forM [3, 1, 4, 2] (lowerNode .empty a)).run.run (Array.replicate a.size none, ⟨7⟩) =
      (.ok (), (done, ⟨7⟩)) := by rfl
  obtain ⟨⟨t, ht, -, -, hlower⟩, -, hmoments⟩ := lower_is_recursion edits hedits 0 hroot .empty
  obtain ⟨hhas, n, hn, hoperator⟩ := hmoments ⟨7⟩ [3, 1, 4, 2] 0 [] done ⟨7⟩ horder hrun
  have hformula : (lower .empty a).run.run ⟨7⟩ = (.ok (.and [.bool true, .not (.bool false)]), ⟨7⟩) := by
    rw [hlower]
    cases ht
    rfl
  cases hn
  obtain ⟨args, -, htaken, -, -⟩ := hoperator .and rfl
  have hargs : args.map some = [1, 2].map fun c => (done[c]?).join := htaken
  refine ⟨hedits, hroot, horder, hformula, hrun, ?_, ?_, args, ?_, hargs⟩
  · exact (hhas 3).2 (by decide)
  · exact fun h => absurd ((hhas 4).1 h) (by decide)
  · simpa using congrArg List.length hargs

end Arena

end RoadPolicy
