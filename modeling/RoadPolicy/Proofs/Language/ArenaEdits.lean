/-
What any calls leave behind in an arena. The links of a node are written at both of its ends by separate
steps, and the root may be declared at any time; still, after any calls, refused ones among them, each
child is listed once, by its parent only, the root hangs below nothing, and a link is refused exactly if
it would spoil this. Taking a child away right after it was attached gives the old arena back.
-/
import RoadPolicy.Proofs.Language.Forest

namespace RoadPolicy

/-! ## Calls -/

/-- A call that changes an arena. -/
inductive Edit where
  | push (head : Head) (span : Span)
  | setRoot (id : NodeId)
  | addChild (parent child : NodeId)
  | detach (id : NodeId)
deriving DecidableEq, Repr

namespace Edit

/-- The nodes that a call refers to. -/
def ids : Edit → List NodeId
  | push _ _ => []
  | setRoot id => [id]
  | addChild parent child => [parent, child]
  | detach id => [id]

/-- The arena after a call. A call that is refused leaves it as it was. -/
def apply (a : Arena) : Edit → Arena
  | push head span => (a.push head span).1
  | setRoot id => (a.setRoot id).toOption.getD a
  | addChild parent child => (a.addChild parent child).toOption.getD a
  | detach id => a.detach id

end Edit

namespace Arena

/-- The arena after some calls. -/
def edited (a : Arena) (edits : List Edit) : Arena := edits.foldl Edit.apply a

/-- Every call refers to nodes that have been made before it. -/
def Admits (a : Arena) : List Edit → Prop
  | [] => True
  | e :: edits => (∀ id ∈ e.ids, id < a.size) ∧ (e.apply a).Admits edits

instance decidableAdmits : ∀ (a : Arena) (edits : List Edit), Decidable (a.Admits edits)
  | _, [] => .isTrue trivial
  | a, e :: edits =>
    have := decidableAdmits (e.apply a) edits
    inferInstanceAs (Decidable ((∀ id ∈ e.ids, id < a.size) ∧ (e.apply a).Admits edits))

variable {a b : Arena} {p c id : NodeId}

/-- One call. -/
theorem Built.apply (h : a.Built) {e : Edit} (he : ∀ id ∈ e.ids, id < a.size) : (e.apply a).Built := by
  cases e with
  | push head span => exact .push head span h
  | setRoot id =>
    have hid := he id List.mem_cons_self
    rw [Edit.apply]
    rcases hset : a.setRoot id with why | b
    · exact h
    · exact .setRoot h hid hset
  | addChild p c =>
    have hp := he p List.mem_cons_self
    have hc := he c (List.mem_cons_of_mem _ List.mem_cons_self)
    rw [Edit.apply]
    rcases hadd : a.addChild p c with why | b
    · exact h
    · exact .addChild h hp hc hadd
  | detach id => exact .detach h (he id List.mem_cons_self)

/-- All calls. -/
theorem Built.edited (h : a.Built) {edits : List Edit} (hedits : a.Admits edits) : (a.edited edits).Built := by
  induction edits generalizing a with
  | nil => exact h
  | cons e edits ih => exact ih (h.apply hedits.1) hedits.2

/-! ## Links -/

theorem children_link (hp : p < a.size) (i : NodeId) :
    (a.link p c).children i = if p = i then a.children i ++ [c] else a.children i := by
  unfold children
  rw [node?_link]
  rcases hn : a.node? i with _ | n
  · have hpi : p ≠ i := by
      rintro rfl
      obtain ⟨n, hn'⟩ := exists_node?_of_lt hp
      rw [hn] at hn'
      cases hn'
    rw [if_neg hpi]
    rfl
  · rfl

theorem children_detach (hparent : a.parent? id = some p) (i : NodeId) :
    (a.detach id).children i = if p = i then (a.children i).filter (· != id) else a.children i := by
  unfold children
  rw [node?_detach hparent]
  rcases a.node? i with _ | n
  · simp
  · rfl

theorem detach_of_parent?_eq_none (h : a.parent? id = none) : a.detach id = a := by rw [detach, h]

theorem root_detach : (a.detach id).root = a.root := by
  rcases hparent : a.parent? id with _ | p
  · rw [detach_of_parent?_eq_none hparent]
  · rw [detach, hparent]

/-- When a link is made, and what it makes. -/
theorem addChild_eq_ok_iff :
    a.addChild p c = .ok b ↔
      (a.parent? c = none ∧ a.root ≠ some c ∧ p ≠ c ∧ c ∉ a.ancestors p) ∧ b = a.link p c := by
  unfold addChild
  split
  · rename_i hparent
    simp [Option.isSome_iff_ne_none.1 hparent]
  rename_i hparent
  rw [Option.not_isSome_iff_eq_none] at hparent
  split
  · rename_i hroot
    simp [hroot]
  rename_i hroot
  split
  · rename_i hcycle
    rw [← not_not (a := p = c ∨ _), not_or] at hcycle
    simp only [reduceCtorEq, false_iff]
    exact fun hb => hcycle hb.1.2.2
  · rename_i hcycle
    rw [not_or] at hcycle
    simp [hparent, hroot, hcycle, eq_comm]

namespace Built

/-- No child is listed twice. -/
theorem nodup_children (h : a.Built) : ∀ p, (a.children p).Nodup := by
  induction h with
  | empty => exact fun _ => List.nodup_nil
  | push head span _ ih =>
    rw [children_push]
    exact ih
  | @setRoot a b i _ _ hb ih =>
    unfold Arena.setRoot at hb
    split at hb
    · cases hb
    · cases hb
      exact ih
  | @addChild a b p c ha hp _ hb ih =>
    obtain ⟨⟨hfree, -⟩, rfl⟩ := addChild_eq_ok_iff.1 hb
    intro i
    -- what has no parent is in no list, so it is new at the end of this one
    have hnew : c ∉ a.children i := fun hmem => by
      have hparent := (ha.forest.linked i c).1 hmem
      rw [hfree] at hparent
      cases hparent
    rw [children_link hp]
    split
    · exact (List.nodup_append_comm.1 (List.nodup_cons.2 ⟨hnew, ih i⟩ : ([c] ++ a.children i).Nodup))
    · exact ih i
  | @detach a i _ _ ih =>
    rcases hparent : a.parent? i with _ | p
    · rw [detach_of_parent?_eq_none hparent]
      exact ih
    · intro j
      rw [children_detach hparent]
      split
      · exact (ih j).filter _
      · exact ih j

/-- The root hangs below nothing. -/
theorem parent?_root (h : a.Built) : ∀ r, a.root = some r → a.parent? r = none := by
  induction h with
  | empty => exact fun r hr => absurd hr (by simp [Arena.empty])
  | push head span _ ih =>
    rw [parent?_push]
    exact ih
  | @setRoot a b i _ _ hb _ =>
    unfold Arena.setRoot at hb
    split at hb
    · cases hb
    · rename_i hparent
      cases hb
      rintro r ⟨⟩
      exact Option.not_isSome_iff_eq_none.1 hparent
  | @addChild a b p c _ _ hc hb ih =>
    obtain ⟨⟨-, hroot, -⟩, rfl⟩ := addChild_eq_ok_iff.1 hb
    intro r hr
    have hcr : c ≠ r := fun hcr => hroot (hcr ▸ hr)
    rw [parent?_link hc, if_neg hcr]
    exact ih r hr
  | @detach a i _ _ ih =>
    intro r hr
    rw [root_detach] at hr
    rcases hparent : a.parent? i with _ | p
    · rw [detach_of_parent?_eq_none hparent]
      exact ih r hr
    · rw [parent?_detach hparent, ih r hr, ite_self]

end Built

/-- A new link that is cut again leaves no trace. -/
theorem Forest.detach_link (h : a.Forest) (hc : c < a.size) (hfree : a.parent? c = none) :
    (a.link p c).detach c = a := by
  have hparent : (a.link p c).parent? c = some p := by rw [parent?_link hc, if_pos rfl]
  have hnode : ∀ i, ((a.link p c).detach c).node? i = a.node? i := by
    intro i
    rw [node?_detach hparent, node?_link, Option.map_map]
    rcases hn : a.node? i with _ | ⟨head, span, parent, children⟩
    · rfl
    -- the child was in no list and had no parent
    have hnew : c ∉ children := fun hmem => by
      have hchild : a.Child i c := by
        rw [Child, Arena.children, hn]
        exact hmem
      rw [h.linked, hfree] at hchild
      cases hchild
    have hfilter : children.filter (· != c) = children :=
      List.filter_eq_self.2 fun d hd => bne_iff_ne.2 fun hdc => hnew (hdc ▸ hd)
    have hup : (if c = i then none else if c = i then some p else parent) = parent := by
      split
      · rename_i hci
        subst hci
        rw [parent?, hn] at hfree
        exact hfree.symm
      · rfl
    have hdown : (if p = i then (if p = i then children ++ [c] else children).filter (· != c)
        else if p = i then children ++ [c] else children) = children := by
      split
      · rw [List.filter_append, hfilter, List.filter_singleton, bne_self_eq_false, cond_false, List.append_nil]
      · rfl
    exact congrArg₂ (fun up down => some (Node.mk head span up down)) hup hdown
  have hnodes : ((a.link p c).detach c).nodes = a.nodes := Array.ext_getElem? hnode
  have hroot : ((a.link p c).detach c).root = a.root := root_detach
  calc (a.link p c).detach c = ⟨((a.link p c).detach c).nodes, ((a.link p c).detach c).root⟩ := rfl
    _ = a := by rw [hnodes, hroot]

/-- Arenas stay forests. After any calls that refer to nodes already made, refused calls changing nothing: a node is
among the children of another exactly if that is its parent, and is listed once; no node hangs below itself, so the
search for ancestors ends, finds exactly the nodes above and none of them twice; and the root hangs below nothing. A
link is then made exactly if the child has no parent, is not the root and is neither the parent nor above it, and
cutting it again restores the arena. -/
theorem edits_keep_forest (edits : List Edit) (hedits : empty.Admits edits) :
    let a := empty.edited edits
    (∀ p c, c ∈ a.children p ↔ a.parent? c = some p) ∧
    (∀ p, (a.children p).Nodup) ∧
    (∀ id, ¬ Relation.TransGen a.Child id id) ∧
    (∀ id, a.ancestors id = ((a.parent? id).elim [] fun p => p :: a.ancestors p) ∧ (a.ancestors id).Nodup ∧
      ∀ x, x ∈ a.ancestors id ↔ Relation.TransGen a.Child x id) ∧
    (∀ r, a.root = some r → a.parent? r = none) ∧
    ∀ p c, p < a.size → c < a.size →
      ((∃ b, a.addChild p c = .ok b) ↔
        a.parent? c = none ∧ a.root ≠ some c ∧ c ≠ p ∧ ¬ Relation.TransGen a.Child c p) ∧
      ∀ b, a.addChild p c = .ok b → b.detach c = a := by
  intro a
  have hbuilt : a.Built := Built.empty.edited hedits
  have h : a.Forest := hbuilt.forest
  refine ⟨h.linked, hbuilt.nodup_children, h.acyclic, fun id => ?_, hbuilt.parent?_root, fun p c _ hc => ⟨?_, ?_⟩⟩
  · exact ⟨h.ancestors_eq id, h.nodup_ancestors id, fun x => h.mem_ancestors_iff⟩
  · simp only [addChild_eq_ok_iff, exists_and_left, exists_eq, and_true, h.mem_ancestors_iff, ne_comm (a := p)]
  · intro b hb
    obtain ⟨⟨hfree, -⟩, rfl⟩ := addChild_eq_ok_iff.1 hb
    exact h.detach_link hc hfree

/-- Two links are refused on the way: one would close a cycle, the other put the root below a node. The first one is
still refused in the end, and one that was cut can be made again. -/
theorem edits_keep_forest_refused :
    let edits := [Edit.push (.operator .and) ⟨0, 3⟩, .push (.operator .not) ⟨4, 3⟩, .push (.symbol "x") ⟨8, 1⟩,
      .setRoot 0, .addChild 1 2, .addChild 2 1, .addChild 0 1, .addChild 1 0, .detach 1]
    let a := empty.edited edits
    empty.Admits edits ∧ (a.root = some 0 ∧ a.parent? 0 = none) ∧ (a.children 1).Nodup ∧
      (2 ∈ a.children 1 ↔ a.parent? 2 = some 1) ∧ a.ancestors 2 = [1] ∧ Relation.TransGen a.Child 1 2 ∧
      (¬ ∃ b, a.addChild 2 1 = .ok b) ∧ ∃ b, a.addChild 0 1 = .ok b ∧ b.detach 1 = a := by
  intro edits a
  have hedits : empty.Admits edits := by decide
  have hancestors : a.ancestors 2 = [1] := by decide
  have hroot : a.root = some 0 := by decide
  obtain ⟨hlinked, hnodup, -, hup, hfree, hadd⟩ := edits_keep_forest edits hedits
  have habove : Relation.TransGen a.Child 1 2 := ((hup 2).2.2 1).1 (hancestors ▸ List.mem_cons_self)
  have hapart : ¬ Relation.TransGen a.Child 1 0 := by
    rw [← (hup 0).2.2 1]
    decide
  have hrefused : ¬ ∃ b, a.addChild 2 1 = .ok b := fun hb => ((hadd 2 1 (by decide) (by decide)).1.1 hb).2.2.2 habove
  obtain ⟨hiff, hcut⟩ := hadd 0 1 (by decide) (by decide)
  obtain ⟨b, hb⟩ := hiff.2 ⟨by decide, by decide, by decide, hapart⟩
  exact ⟨hedits, ⟨hroot, hfree 0 hroot⟩, hnodup 1, hlinked 1 2, hancestors, habove, hrefused, b, hb, hcut b hb⟩

end Arena

end RoadPolicy
