/-
The walk of a built arena. The part below a node unfolds to a tree in which no node occurs twice, since
a node has one parent and is listed there once; so the stack of the walk runs empty, and until then the
walk has visited every node below exactly once, the children of a node from left to right and then the
node. A visitor that fails ends the walk where it fails.
-/
import RoadPolicy.Proofs.Computation
import RoadPolicy.Proofs.Language.ArenaEdits

namespace RoadPolicy

namespace Tree

theorem postOrderAll_eq_flatMap (ts : List Tree) : postOrderAll ts = ts.flatMap postOrder := by
  induction ts with
  | nil => rfl
  | cons t ts ih => rw [postOrderAll, List.flatMap_cons, ih]

theorem length_postOrderAll {ts : List Tree} (h : ∀ t ∈ ts, t.postOrder.length = t.size) :
    (postOrderAll ts).length = sizeAll ts := by
  induction ts with
  | nil => rfl
  | cons t ts ih =>
    rw [List.forall_mem_cons] at h
    rw [postOrderAll, List.length_append, h.1, ih h.2, sizeAll]

theorem length_postOrder (t : Tree) : t.postOrder.length = t.size := by
  induction t with
  | node id head span children ih =>
    rw [postOrder, List.length_append, length_postOrderAll ih, size, List.length_singleton]

end Tree

namespace Arena

variable {a : Arena} {t : Tree} {id p c d x : NodeId}

/-! ## Trees in a forest -/

theorem Holds.lt_size (h : a.Holds t) : t.id < a.size := by
  cases h with
  | node hn _ _ => exact lt_of_node? hn

theorem children_of_node? {n : Node} (h : a.node? id = some n) : a.children id = n.children := by
  rw [children, h]
  rfl

theorem Holds.children_id (h : a.Holds t) : ∃ children : List Tree, a.children t.id = children.map Tree.id ∧
    (∀ u ∈ children, a.Holds u) ∧ t.postOrder = children.flatMap Tree.postOrder ++ [t.id] := by
  cases h with
  | @node id n children hn hids hall =>
    refine ⟨children, (children_of_node? hn).trans hids, hall, ?_⟩
    rw [Tree.postOrder, Tree.postOrderAll_eq_flatMap, Tree.id]

/-- The nodes of a tree are those below its topmost one. -/
theorem Holds.mem_postOrder_iff (h : a.Holds t) : x ∈ t.postOrder ↔ a.Below t.id x := by
  constructor
  · intro hx
    induction h with
    | @node id n children hn hids _ ih =>
      rw [Tree.postOrder, Tree.postOrderAll_eq_flatMap, List.mem_append, List.mem_flatMap, List.mem_singleton] at hx
      rcases hx with ⟨u, hu, hx⟩ | rfl
      · have hchild : a.Child id u.id := by
          rw [Child, children_of_node? hn, hids]
          exact List.mem_map_of_mem hu
        exact .head hchild (ih u hu hx)
      · exact .refl
  · intro hx
    generalize hid : t.id = top at hx
    induction hx using Relation.ReflTransGen.head_induction_on generalizing t with
    | refl => exact hid ▸ t.id_mem_postOrder
    | head hchild _ ih =>
      subst hid
      obtain ⟨children, hids, hall, horder⟩ := h.children_id
      rw [Child, hids] at hchild
      obtain ⟨u, hu, huc⟩ := List.mem_map.1 hchild
      rw [horder]
      exact List.mem_append_left _ (List.mem_flatMap.2 ⟨u, hu, ih (hall u hu) huc⟩)

namespace Forest

/-- A node is a child of one node only. -/
theorem parent_unique (h : a.Forest) (hp : a.Child p x) (hc : a.Child c x) : p = c := by
  have hparent := (h.linked p x).1 hp
  rw [(h.linked c x).1 hc] at hparent
  exact (Option.some.inj hparent).symm

/-- Of two nodes above a third one, one is above the other. -/
theorem below_total (h : a.Forest) (hp : a.Below p x) (hc : a.Below c x) : a.Below p c ∨ a.Below c p := by
  have hunique : Relator.RightUnique (Function.swap a.Child) := fun _ _ _ => h.parent_unique
  have htotal := Relation.ReflTransGen.total_of_right_unique hunique (Relation.reflTransGen_swap.2 hp)
    (Relation.reflTransGen_swap.2 hc)
  exact htotal.symm.imp Relation.reflTransGen_swap.1 Relation.reflTransGen_swap.1

/-- No child of a node is below another one. -/
theorem eq_of_below_sibling (h : a.Forest) (hc : a.Child p c) (hd : a.Child p d) (hbelow : a.Below c d) : c = d := by
  rcases Relation.ReflTransGen.cases_tail hbelow with rfl | ⟨q, hcq, hqd⟩
  · rfl
  · -- a path from `c` to `d` passes their parent
    obtain rfl := h.parent_unique hd hqd
    exact absurd (Relation.TransGen.head' hc hcq) (h.acyclic p)

/-- What is below two children of a node would make them one. -/
theorem eq_of_below (h : a.Forest) (hc : a.Child p c) (hd : a.Child p d) (hcx : a.Below c x) (hdx : a.Below d x) :
    c = d := by
  rcases h.below_total hcx hdx with hbelow | hbelow
  · exact h.eq_of_below_sibling hc hd hbelow
  · exact (h.eq_of_below_sibling hd hc hbelow).symm

/-- In a forest that lists each child once, no node occurs twice in a tree. -/
theorem nodup_postOrder (h : a.Forest) (hnd : ∀ p, (a.children p).Nodup) (ht : a.Holds t) : t.postOrder.Nodup := by
  induction ht with
  | @node id n children hn hids hall ih =>
    have hlist : a.children id = children.map Tree.id := (children_of_node? hn).trans hids
    have hchild : ∀ u ∈ children, a.Child id u.id := fun u hu => by
      rw [Child, hlist]
      exact List.mem_map_of_mem hu
    have hapart : children.Pairwise fun u v => u.id ≠ v.id := by
      rw [← List.pairwise_map]
      exact hlist ▸ hnd id
    rw [Tree.postOrder, Tree.postOrderAll_eq_flatMap, List.nodup_append, List.nodup_flatMap]
    refine ⟨⟨ih, hapart.imp_of_mem fun {u v} hu hv hne => ?_⟩, List.nodup_singleton _, ?_⟩
    · intro x hxu hxv
      exact hne (h.eq_of_below (hchild u hu) (hchild v hv) ((hall u hu).mem_postOrder_iff.1 hxu)
        ((hall v hv).mem_postOrder_iff.1 hxv))
    · rintro x hx y hy rfl
      obtain ⟨u, hu, hxu⟩ := List.mem_flatMap.1 hx
      obtain rfl := List.mem_singleton.1 hy
      exact h.acyclic x (.head' (hchild u hu) ((hall u hu).mem_postOrder_iff.1 hxu))

end Forest

namespace Built

theorem nodup_postOrder (h : a.Built) (ht : a.Holds t) : t.postOrder.Nodup :=
  h.forest.nodup_postOrder h.nodup_children ht

theorem lt_of_below (h : a.Built) (hid : id < a.size) (hx : a.Below id x) : x < a.size := by
  rcases Relation.ReflTransGen.cases_tail hx with rfl | ⟨q, -, hqx⟩
  · exact hid
  · exact lt_of_parent? ((h.forest.linked q x).1 hqx)

theorem lt_of_mem_postOrder (h : a.Built) (ht : a.Holds t) (hx : x ∈ t.postOrder) : x < a.size :=
  h.lt_of_below ht.lt_size (ht.mem_postOrder_iff.1 hx)

theorem size_le (h : a.Built) (ht : a.Holds t) : t.size ≤ a.size := by
  have hsub : t.postOrder ⊆ List.range a.size := fun x hx => List.mem_range.2 (h.lt_of_mem_postOrder ht hx)
  have hlen := ((h.nodup_postOrder ht).subperm hsub).length_le
  rwa [t.length_postOrder, List.length_range] at hlen

end Built

/-! ## The nodes in the order of a walk -/

theorem run_forM_push (ids : List NodeId) (seen : Array NodeId) :
    ((forM ids fun i => modify fun seen => seen.push i : StateM (Array NodeId) Unit).run seen).2 =
      seen ++ ids.toArray := by
  induction ids generalizing seen with
  | nil => exact (Array.append_empty).symm
  | cons i ids ih =>
    have hsplit : seen ++ (i :: ids).toArray = seen.push i ++ ids.toArray := by simp
    rw [hsplit]
    exact ih (seen.push i)

theorem Built.postOrder_eq (h : a.Built) (ht : a.Holds t) : (a.postOrder t.id).toList = t.postOrder := by
  rw [postOrder, walk_eq_forM ht (h.size_le ht), run_forM_push]
  simp

/-! ## Visitors that fail -/

section

variable {ε σ : Type}

/-- A visitor that notes the nodes which it is sent to. -/
def noting (visit : NodeId → ExceptT ε (StateM σ) Unit) (id : NodeId) : ExceptT ε (StateM (σ × List NodeId)) Unit :=
  fun (s, seen) => (((visit id).run.run s).1, ((visit id).run.run s).2, seen ++ [id])

/-- Visits one after the other: all of them succeed, or those before the first one that fails, and its error is the
outcome. -/
theorem run_forM_noting (visit : NodeId → ExceptT ε (StateM σ) Unit) (ids seen : List NodeId) (s : σ) :
    (∃ s', (forM ids visit).run.run s = (.ok (), s') ∧
      (forM ids (noting visit)).run.run (s, seen) = (.ok (), s', seen ++ ids)) ∨
    ∃ before x after s₁ e s₂, ids = before ++ x :: after ∧ (forM before visit).run.run s = (.ok (), s₁) ∧
      (visit x).run.run s₁ = (.error e, s₂) ∧ (forM ids visit).run.run s = (.error e, s₂) ∧
      (forM ids (noting visit)).run.run (s, seen) = (.error e, s₂, seen ++ (before ++ [x])) := by
  induction ids generalizing s seen with
  | nil => exact .inl ⟨s, rfl, by rw [List.append_nil]; rfl⟩
  | cons i ids ih =>
    have hcons : ∀ {τ : Type} (f : NodeId → ExceptT ε (StateM τ) Unit) (l : List NodeId),
        forM (i :: l) f = f i >>= fun _ => forM l f := fun _ _ => rfl
    have hnote : (noting visit i).run.run (s, seen) =
        (((visit i).run.run s).1, ((visit i).run.run s).2, seen ++ [i]) := rfl
    simp only [hcons, run_bind, hnote]
    rcases hi : (visit i).run.run s with ⟨e | u, s₁⟩
    · exact .inr ⟨[], i, ids, s, e, s₁, rfl, rfl, hi, rfl, rfl⟩
    · rcases ih (seen ++ [i]) s₁ with ⟨s', hall, hnoted⟩ | ⟨before, x, after, s₂, e, s₃, rfl, hbefore, hx, hstop, hnoted⟩
      · rw [List.append_assoc] at hnoted
        exact .inl ⟨s', hall, hnoted⟩
      · refine .inr ⟨i :: before, x, after, s₂, e, s₃, rfl, ?_, hx, hstop, ?_⟩
        · rw [hcons, run_bind, hi]
          exact hbefore
        · rw [List.append_assoc] at hnoted
          exact hnoted

end

/-! ## All walks -/

/-- Walks of what calls have built. The order of the nodes is the recursive one: those of the children of a node, from
left to right, then the node. It holds the nodes below and none of them twice. The stack of the walk runs empty after one
turn less than twice as many as there are nodes, and every node has then been visited in that order. A visitor that fails
somewhere has been sent exactly to the nodes up to the first one where it fails, and the walk returns the error that it
has met there. -/
theorem walk_in_post_order (edits : List Edit) (hedits : empty.Admits edits) (id : NodeId)
    (hid : id < (empty.edited edits).size) :
    let a := empty.edited edits
    let order := (a.postOrder id).toList
    order = (a.children id).flatMap (fun c => (a.postOrder c).toList) ++ [id] ∧
    order.Nodup ∧
    (∀ x, x ∈ order ↔ a.Below id x) ∧
    a.Ends [a.frame id] (2 * order.length - 1) order ∧
    ∀ {ε σ : Type} (visit : NodeId → ExceptT ε (StateM σ) Unit) (s : σ),
      (∃ s', (forM order visit).run.run s = (.ok (), s') ∧ (a.walk id visit).run.run s = (.ok (), s') ∧
        (a.walk id (noting visit)).run.run (s, []) = (.ok (), s', order)) ∨
      ∃ before x after s₁ e s₂, order = before ++ x :: after ∧ (forM before visit).run.run s = (.ok (), s₁) ∧
        (visit x).run.run s₁ = (.error e, s₂) ∧ (a.walk id visit).run.run s = (.error e, s₂) ∧
        (a.walk id (noting visit)).run.run (s, []) = (.error e, s₂, before ++ [x]) := by
  intro a order
  have hbuilt : a.Built := Built.empty.edited hedits
  obtain ⟨t, -, ht, rfl⟩ := hbuilt.forest.exists_treeAt? hid
  have horder : order = t.postOrder := hbuilt.postOrder_eq ht
  have hends : a.Ends [a.frame t.id] (2 * t.size - 1 + 0) (t.postOrder ++ []) := ht.ends .done
  refine ⟨?_, horder ▸ hbuilt.nodup_postOrder ht, fun x => horder ▸ ht.mem_postOrder_iff, ?_, fun visit s => ?_⟩
  · obtain ⟨children, hids, hall, hunfold⟩ := ht.children_id
    have hparts : children.flatMap Tree.postOrder = children.flatMap fun u => (a.postOrder u.id).toList :=
      List.flatMap_congr fun u hu => (hbuilt.postOrder_eq (hall u hu)).symm
    rw [horder, hunfold, hids, List.flatMap_map, hparts]
  · rw [List.append_nil] at hends
    rwa [horder, t.length_postOrder]
  · rw [horder, walk_eq_forM ht (hbuilt.size_le ht), walk_eq_forM ht (hbuilt.size_le ht)]
    rcases run_forM_noting visit t.postOrder [] s with ⟨s', hall, hnoted⟩ | hstop
    · exact .inl ⟨s', hall, hall, hnoted⟩
    · exact .inr hstop

/-- A part has been detached, and the visitor fails at a literal: it has been sent to two nodes by then. -/
theorem walk_in_post_order_stopped :
    let edits := [Edit.push (.operator .and) ⟨0, 3⟩, .setRoot 0, .push (.operator .ge) ⟨4, 2⟩, .addChild 0 1,
      .push (.symbol "x") ⟨7, 1⟩, .addChild 1 2, .push (.symbol "z") ⟨0, 0⟩, .addChild 1 3, .detach 3,
      .push (.literal (.int "10")) ⟨9, 2⟩, .addChild 1 4, .push (.symbol "y") ⟨13, 1⟩, .addChild 0 5]
    let a := empty.edited edits
    let visit : NodeId → ExceptT String (StateM Nat) Unit := fun i s =>
      if i = 4 then (.error "literal", s) else (.ok (), s + 1)
    empty.Admits edits ∧ 0 < a.size ∧ (a.postOrder 0).toList = [2, 4, 1, 5, 0] ∧
      (∀ x, x ∈ [2, 4, 1, 5, 0] ↔ a.Below 0 x) ∧ a.Ends [a.frame 0] 9 [2, 4, 1, 5, 0] ∧
      (a.walk 0 (noting visit)).run.run (0, []) = (.error "literal", 1, [2, 4]) := by
  intro edits a visit
  have hedits : empty.Admits edits := by decide
  have hid : 0 < a.size := by decide
  have horder : (a.postOrder 0).toList = [2, 4, 1, 5, 0] := by decide
  obtain ⟨-, -, hbelow, hends, hvisits⟩ := walk_in_post_order edits hedits 0 hid
  rw [horder] at hbelow hends hvisits
  refine ⟨hedits, hid, horder, hbelow, hends, ?_⟩
  rcases hvisits visit 0 with ⟨s, hall, -⟩ | ⟨before, x, after, s₁, e, s₂, hsplit, hbefore, hx, -, hnoted⟩
  · cases hall
  rcases before with _ | ⟨i, _ | ⟨j, before⟩⟩
  · -- the visitor gets past the first node
    cases hsplit
    cases hx
  · cases hsplit
    cases hbefore
    cases hx
    exact hnoted
  · -- and none gets past the second one
    simp only [List.cons_append, List.cons.injEq] at hsplit
    obtain ⟨rfl, rfl, -⟩ := hsplit
    cases hbefore

end Arena

end RoadPolicy
