/-
Arenas are forests. Whatever calls have built an arena, each link is kept at both of its ends and no
node hangs below itself; so no path is longer than the number of nodes, the search for ancestors
finds them all, and the part below any node unfolds to a tree. What one call keeps is shown first,
for each of the calls, and then what all of them keep.
-/
import RoadPolicy.Proofs.Language.PostOrder

namespace RoadPolicy.Arena

/-- The arenas that calls can build. Indices are those of nodes that have been made; a call that is
refused leaves the arena as it was. -/
inductive Built : Arena → Prop
  | empty : Built .empty
  | push {a : Arena} (head : Head) (span : Span) : Built a → Built (a.push head span).1
  | setRoot {a b : Arena} {i : NodeId} : Built a → i < a.size → a.setRoot i = .ok b → Built b
  | addChild {a b : Arena} {p c : NodeId} : Built a → p < a.size → c < a.size → a.addChild p c = .ok b → Built b
  | detach {a : Arena} {i : NodeId} : Built a → i < a.size → Built (a.detach i)

/-- Links are kept at both ends, no node hangs below itself, and the root is a node. -/
structure Forest (a : Arena) : Prop where
  linked : ∀ p c, a.Child p c ↔ a.parent? c = some p
  acyclic : ∀ id, ¬ Relation.TransGen a.Child id id
  root_lt : ∀ r, a.root = some r → r < a.size

variable {a b : Arena} {p c id : NodeId}

theorem lt_of_node? {n : Node} (h : a.node? id = some n) : id < a.size := (Array.getElem?_eq_some_iff.1 h).1

theorem exists_node?_of_lt (h : id < a.size) : ∃ n, a.node? id = some n := ⟨_, Array.getElem?_eq_getElem h⟩

theorem Child.lt (h : a.Child p c) : p < a.size := by
  unfold Child children at h
  rcases hn : a.node? p with _ | n
  · rw [hn] at h; cases h
  · exact lt_of_node? hn

theorem lt_of_parent? (h : a.parent? c = some p) : c < a.size := by
  obtain ⟨n, hn, -⟩ := Option.bind_eq_some_iff.1 h
  exact lt_of_node? hn

/-! ## Paths in a forest -/

/-- Different nodes, and one more, are fewer than all nodes. -/
theorem length_lt_size {path : List NodeId} (hnd : path.Nodup) (hlt : ∀ x ∈ path, x < a.size) (hid : id < a.size)
    (hnew : id ∉ path) : path.length < a.size := by
  have hcons : (id :: path).Nodup := List.nodup_cons.2 ⟨hnew, hnd⟩
  have hsub : id :: path ⊆ List.range a.size := by
    intro x hx
    rw [List.mem_range]
    rcases List.mem_cons.1 hx with rfl | hx
    · exact hid
    · exact hlt x hx
  have hlen := (hcons.subperm hsub).length_le
  rw [List.length_range, List.length_cons] at hlen
  omega

theorem exists_mapM_eq_some {α β : Type} {f : α → Option β} : ∀ {l : List α}, (∀ x ∈ l, ∃ y, f x = some y) →
    ∃ ys, l.mapM f = some ys
  | [], _ => ⟨[], rfl⟩
  | x :: l, h => by
    rw [List.forall_mem_cons] at h
    obtain ⟨⟨y, hy⟩, hl⟩ := h
    obtain ⟨ys, hys⟩ := exists_mapM_eq_some hl
    exact ⟨y :: ys, by rw [List.mapM_cons, hy, hys]; rfl⟩

namespace Forest

/-- With as many steps as there are nodes, the search for ancestors has come to an end. `path` are the nodes passed
on the way up. -/
theorem ancestorsWithin_succ (h : a.Forest) : ∀ {limit : Nat} {id : NodeId} {path : List NodeId}, path.Nodup →
    (∀ y ∈ path, y < a.size ∧ Relation.TransGen a.Child id y) → a.size ≤ path.length + limit →
    a.ancestorsWithin (limit + 1) id = a.ancestorsWithin limit id := by
  intro limit
  induction limit with
  | zero =>
    intro id path hnd hpath hlen
    rcases hparent : a.parent? id with _ | p
    · simp only [ancestorsWithin, hparent]
    · have hnew : id ∉ path := fun hmem => h.acyclic id (hpath id hmem).2
      have := length_lt_size hnd (fun y hy => (hpath y hy).1) (lt_of_parent? hparent) hnew
      omega
  | succ limit ih =>
    intro id path hnd hpath hlen
    rw [ancestorsWithin, ancestorsWithin]
    rcases hparent : a.parent? id with _ | p
    · rfl
    · have hchild : a.Child p id := (h.linked p id).2 hparent
      have hnew : id ∉ path := fun hmem => h.acyclic id (hpath id hmem).2
      have hup : ∀ y ∈ id :: path, y < a.size ∧ Relation.TransGen a.Child p y :=
        List.forall_mem_cons.2 ⟨⟨lt_of_parent? hparent, .single hchild⟩, fun y hy =>
          ⟨(hpath y hy).1, .head hchild (hpath y hy).2⟩⟩
      have hrest : a.ancestorsWithin (limit + 1) p = a.ancestorsWithin limit p := by
        refine ih (List.nodup_cons.2 ⟨hnew, hnd⟩) hup ?_
        rw [List.length_cons]
        omega
      simp only [hrest]

/-- The ancestors of a node are its parent and the ancestors of that. -/
theorem ancestors_eq (h : a.Forest) (id : NodeId) :
    a.ancestors id = (a.parent? id).elim [] fun p => p :: a.ancestors p := by
  have hmore : a.ancestors id = a.ancestorsWithin (a.size + 1) id :=
    (h.ancestorsWithin_succ List.nodup_nil (List.forall_mem_nil _) (by simp)).symm
  rw [hmore, ancestorsWithin]
  rcases a.parent? id with _ | p <;> rfl

theorem transGen_of_mem_ancestorsWithin (h : a.Forest) {x : NodeId} : ∀ {limit : Nat} {id : NodeId},
    x ∈ a.ancestorsWithin limit id → Relation.TransGen a.Child x id := by
  intro limit
  induction limit with
  | zero => exact fun hx => absurd hx List.not_mem_nil
  | succ limit ih =>
    intro id hx
    rw [ancestorsWithin] at hx
    rcases hparent : a.parent? id with _ | p
    · simp [hparent] at hx
    · have hchild : a.Child p id := (h.linked p id).2 hparent
      simp only [hparent, List.mem_cons] at hx
      rcases hx with rfl | hx
      · exact .single hchild
      · exact .tail (ih hx) hchild

/-- The search for ancestors finds all nodes that a node hangs below, and no others. -/
theorem mem_ancestors_iff (h : a.Forest) {x : NodeId} : x ∈ a.ancestors id ↔ Relation.TransGen a.Child x id := by
  refine ⟨h.transGen_of_mem_ancestorsWithin, fun hx => ?_⟩
  induction hx with
  | single hchild =>
    rw [h.ancestors_eq, (h.linked _ _).1 hchild]
    exact List.mem_cons_self
  | tail _ hchild ih =>
    rw [h.ancestors_eq, (h.linked _ _).1 hchild]
    exact List.mem_cons_of_mem _ ih

/-- No ancestor is found twice. -/
theorem nodup_ancestors (h : a.Forest) (id : NodeId) : (a.ancestors id).Nodup := by
  have hwithin : ∀ limit id, (a.ancestorsWithin limit id).Nodup := by
    intro limit
    induction limit with
    | zero => exact fun _ => List.nodup_nil
    | succ limit ih =>
      intro id
      rw [ancestorsWithin]
      rcases a.parent? id with _ | p
      · exact List.nodup_nil
      · exact List.nodup_cons.2 ⟨fun hp => h.acyclic p (h.transGen_of_mem_ancestorsWithin hp), ih p⟩
  exact hwithin a.size id

/-- What hangs below a node unfolds. `path` are the nodes passed on the way down. -/
theorem treeWithin_isSome (h : a.Forest) : ∀ {depth : Nat} {id : NodeId} {path : List NodeId}, path.Nodup →
    (∀ y ∈ path, y < a.size ∧ Relation.TransGen a.Child y id) → a.size ≤ path.length + depth → id < a.size →
    ∃ t, a.treeWithin depth id = some t := by
  intro depth
  induction depth with
  | zero =>
    intro id path hnd hpath hlen hid
    have hnew : id ∉ path := fun hmem => h.acyclic id (hpath id hmem).2
    have := length_lt_size hnd (fun y hy => (hpath y hy).1) hid hnew
    omega
  | succ depth ih =>
    intro id path hnd hpath hlen hid
    obtain ⟨n, hn⟩ := exists_node?_of_lt hid
    have hnew : id ∉ path := fun hmem => h.acyclic id (hpath id hmem).2
    have hchildren : ∀ c ∈ n.children, ∃ t, a.treeWithin depth c = some t := by
      intro c hc
      have hchild : a.Child id c := by
        rw [Child, children, hn]
        exact hc
      refine ih (List.nodup_cons.2 ⟨hnew, hnd⟩) ?_ ?_ (lt_of_parent? ((h.linked id c).1 hchild))
      · refine List.forall_mem_cons.2 ⟨⟨hid, .single hchild⟩, fun y hy => ?_⟩
        exact ⟨(hpath y hy).1, .tail (hpath y hy).2 hchild⟩
      · rw [List.length_cons]
        omega
    obtain ⟨ts, hts⟩ := exists_mapM_eq_some hchildren
    refine ⟨.node id n.head n.span ts, ?_⟩
    rw [treeWithin, hn]
    simp only [hts, Option.map_some]

/-- In a forest the part below any node unfolds to a tree. -/
theorem exists_treeAt? (h : a.Forest) (hid : id < a.size) : ∃ t, a.treeAt? id = some t ∧ a.Holds t ∧ t.id = id := by
  have hunfold : ∃ t, a.treeWithin a.size id = some t :=
    h.treeWithin_isSome List.nodup_nil (List.forall_mem_nil _) (by simp) hid
  obtain ⟨t, ht⟩ := hunfold
  exact ⟨t, ht, holds_of_treeWithin ht⟩

/-- A forest with a root unfolds to a tree. -/
theorem exists_tree? (h : a.Forest) {root : NodeId} (hroot : a.root = some root) :
    ∃ t, a.tree? = some t ∧ a.Holds t ∧ t.id = root := by
  obtain ⟨t, ht, hholds⟩ := h.exists_treeAt? (h.root_lt root hroot)
  refine ⟨t, ?_, hholds⟩
  rw [tree?, hroot]
  exact ht

end Forest

/-! ## Calls -/

theorem children_push (head : Head) (span : Span) : (a.push head span).1.children = a.children := by
  funext i
  simp only [children, node?, push, Array.getElem?_push]
  split
  · rename_i hi
    subst hi
    simp
  · rfl

theorem parent?_push (head : Head) (span : Span) : (a.push head span).1.parent? = a.parent? := by
  funext i
  simp only [parent?, node?, push, Array.getElem?_push]
  split
  · rename_i hi
    subst hi
    simp
  · rfl

/-- A link changes the parent of the child and the children of the parent, and nothing else. -/
theorem node?_link (i : NodeId) :
    (a.link p c).node? i = (a.node? i).map fun n =>
      { n with
        parent := if c = i then some p else n.parent
        children := if p = i then n.children ++ [c] else n.children } := by
  simp only [node?, link, Array.getElem?_modify]
  split <;> split <;> simp [Function.comp_def]

theorem child_link (hp : p < a.size) {x y : NodeId} : (a.link p c).Child x y ↔ a.Child x y ∨ x = p ∧ y = c := by
  unfold Child children
  rw [node?_link]
  rcases hn : a.node? x with _ | n
  · have hxp : x ≠ p := by
      rintro rfl
      obtain ⟨n, hn'⟩ := exists_node?_of_lt hp
      rw [hn] at hn'
      cases hn'
    simp [hxp]
  · by_cases hxp : p = x
    · simp [hxp]
    · simp [hxp, Ne.symm hxp]

theorem parent?_link (hc : c < a.size) (i : NodeId) : (a.link p c).parent? i = if c = i then some p else a.parent? i := by
  unfold parent?
  rw [node?_link]
  rcases hn : a.node? i with _ | n
  · have hci : c ≠ i := by
      rintro rfl
      obtain ⟨n, hn'⟩ := exists_node?_of_lt hc
      rw [hn] at hn'
      cases hn'
    simp [hci]
  · simp

/-- A path over the new link is a path to its upper end and one from its lower end. -/
theorem transGen_link (hp : p < a.size) {x y : NodeId} (h : Relation.TransGen (a.link p c).Child x y) :
    Relation.TransGen a.Child x y ∨ Relation.ReflTransGen a.Child x p ∧ Relation.ReflTransGen a.Child c y := by
  induction h with
  | single hxy =>
    rcases (child_link hp).1 hxy with hxy | ⟨rfl, rfl⟩
    · exact .inl (.single hxy)
    · exact .inr ⟨.refl, .refl⟩
  | tail _ hyz ih =>
    rcases (child_link hp).1 hyz with hyz | ⟨rfl, rfl⟩
    · rcases ih with ih | ⟨hxp, hcy⟩
      · exact .inl (ih.tail hyz)
      · exact .inr ⟨hxp, hcy.tail hyz⟩
    · rcases ih with ih | ⟨hxp, -⟩
      · exact .inr ⟨ih.to_reflTransGen, .refl⟩
      · exact .inr ⟨hxp, .refl⟩

theorem size_link : (a.link p c).size = a.size := by simp [size, link]

theorem Forest.link (h : a.Forest) (hp : p < a.size) (hc : c < a.size) (hfree : a.parent? c = none)
    (hcycle : ¬ Relation.ReflTransGen a.Child c p) : (a.link p c).Forest := by
  refine ⟨fun q d => ?_, fun x hx => ?_, fun r hr => ?_⟩
  · rw [child_link hp, parent?_link hc, h.linked]
    by_cases hd : c = d
    · subst hd
      simp [hfree, eq_comm]
    · simp [hd, Ne.symm hd]
  · rcases transGen_link hp hx with hx | ⟨hxp, hcx⟩
    · exact h.acyclic x hx
    · exact hcycle (hcx.trans hxp)
  · rw [size_link]
    exact h.root_lt r hr

theorem Forest.addChild (h : a.Forest) (hp : p < a.size) (hc : c < a.size) (hb : a.addChild p c = .ok b) :
    b.Forest := by
  unfold Arena.addChild at hb
  split at hb
  · cases hb
  rename_i hparent
  split at hb
  · cases hb
  split at hb
  · cases hb
  rename_i hcycle
  cases hb
  rw [not_or] at hcycle
  refine h.link hp hc (by simpa using hparent) fun hbelow => ?_
  rcases Relation.reflTransGen_iff_eq_or_transGen.1 hbelow with heq | hbelow
  · exact hcycle.1 heq
  · exact hcycle.2 (h.mem_ancestors_iff.2 hbelow)

theorem node?_detach (hparent : a.parent? id = some p) (i : NodeId) :
    (a.detach id).node? i = (a.node? i).map fun n =>
      { n with
        parent := if id = i then none else n.parent
        children := if p = i then n.children.filter (· != id) else n.children } := by
  simp only [node?, detach, hparent, Array.getElem?_modify]
  split <;> split <;> simp [Function.comp_def]

theorem child_detach (hparent : a.parent? id = some p) {x y : NodeId} :
    (a.detach id).Child x y ↔ a.Child x y ∧ ¬ (x = p ∧ y = id) := by
  unfold Child children
  rw [node?_detach hparent]
  rcases a.node? x with _ | n
  · simp
  · by_cases hxp : p = x
    · simp [hxp]
    · simp [hxp, Ne.symm hxp]

theorem parent?_detach (hparent : a.parent? id = some p) (i : NodeId) :
    (a.detach id).parent? i = if id = i then none else a.parent? i := by
  unfold parent?
  rw [node?_detach hparent]
  rcases a.node? i with _ | n
  · simp
  · simp

theorem Forest.detach (h : a.Forest) (id : NodeId) : (a.detach id).Forest := by
  rcases hparent : a.parent? id with _ | p
  · have hsame : a.detach id = a := by rw [Arena.detach, hparent]
    rw [hsame]
    exact h
  · refine ⟨fun q d => ?_, fun x hx => ?_, fun r hr => ?_⟩
    · rw [child_detach hparent, parent?_detach hparent, h.linked]
      by_cases hd : id = d
      · subst hd
        simp [hparent, eq_comm]
      · simp [hd, Ne.symm hd]
    · exact h.acyclic x (Relation.TransGen.mono (fun _ _ hxy => ((child_detach hparent).1 hxy).1) x x hx)
    · have hroot : (a.detach id).root = a.root := by rw [Arena.detach, hparent]
      have hsize : (a.detach id).size = a.size := by simp [Arena.detach, hparent, size]
      rw [hsize]
      exact h.root_lt r (hroot ▸ hr)

/-- Every arena that calls can build is a forest. -/
theorem Built.forest (h : a.Built) : a.Forest := by
  induction h with
  | empty =>
    refine ⟨fun p c => ?_, fun id hid => ?_, fun r hr => ?_⟩
    · refine iff_of_false List.not_mem_nil fun hp => ?_
      cases hp
    · obtain ⟨c, hc, -⟩ := Relation.TransGen.head'_iff.1 hid
      cases hc
    · cases hr
  | @push a head span _ ih =>
    have hchild : (a.push head span).1.Child = a.Child := by
      unfold Child
      rw [children_push]
    refine ⟨fun p c => ?_, fun id => ?_, fun r hr => ?_⟩
    · rw [hchild, parent?_push]
      exact ih.linked p c
    · rw [hchild]
      exact ih.acyclic id
    · have hlt := ih.root_lt r hr
      have hsize : (a.push head span).1.size = a.size + 1 := by simp [size, Arena.push]
      rw [hsize]
      exact Nat.lt_succ_of_lt hlt
  | setRoot _ hid hb ih =>
    unfold Arena.setRoot at hb
    split at hb
    · cases hb
    · cases hb
      refine ⟨ih.linked, ih.acyclic, fun r hr => ?_⟩
      cases hr
      exact hid
  | addChild _ hp hc hb ih => exact ih.addChild hp hc hb
  | detach _ _ ih => exact ih.detach _

end RoadPolicy.Arena
