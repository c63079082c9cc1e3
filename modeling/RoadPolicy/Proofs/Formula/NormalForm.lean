/-
Simplification reaches a normal form in one pass. In a normal form no connective can be folded any more: no
truth value stands where it could be folded away, no junction is in one of its own kind or has fewer than two
operands, and nothing is negated twice. The terms that simplification leaves alone are exactly those in normal
form, so a second pass changes nothing.
-/
import RoadPolicy.Formula.Simplify
import RoadPolicy.Proofs.Formula.Subterms

namespace RoadPolicy

namespace Term

/-! ## Normal forms -/

/-- The kind of junction that the term is. -/
def junction? : Term → Option Junction
  | junction j _ => some j
  | _ => none

def isNegation : Term → Bool
  | not _ => true
  | _ => false

/-- An operand that a junction has to keep: no truth value, and no junction of the same kind. -/
def Kept (j : Junction) (t : Term) : Prop := t.boolLit? = none ∧ t.junction? ≠ some j

/-- The connective at the root of the term cannot be folded away. -/
def Folded : Term → Prop
  | junction j ts => 2 ≤ ts.length ∧ ∀ t ∈ ts, t.Kept j
  | not a => a.boolLit? = none ∧ a.isNegation = false
  | implies a b => a.boolLit? = none ∧ b.boolLit? ≠ some true
  | ite c _ _ => c.boolLit? = none
  | quantified _ _ body => body.boolLit? = none
  | _ => True

/-- No connective of the term can be folded away. -/
def Normal (t : Term) : Prop := t.Everywhere Folded

instance (j : Junction) (t : Term) : Decidable (t.Kept j) := inferInstanceAs (Decidable (_ ∧ _))

instance : DecidablePred Folded
  | junction _ _ => inferInstanceAs (Decidable (_ ∧ _))
  | not _ => inferInstanceAs (Decidable (_ ∧ _))
  | implies _ _ => inferInstanceAs (Decidable (_ ∧ _))
  | ite _ _ _ => inferInstanceAs (Decidable (_ = _))
  | quantified _ _ _ => inferInstanceAs (Decidable (_ = _))
  | const _ _ | bool _ | int _ | real _ | arith _ _ _ | div _ _ | neg _ | eq _ _ | compare _ _ _ => isTrue trivial

instance (t : Term) : Decidable t.Normal := inferInstanceAs (Decidable (∀ s ∈ t.subterms, _))

theorem boolLit?_eq_some_iff {t : Term} {b : Bool} : t.boolLit? = some b ↔ t = bool b := by
  cases t <;> simp [boolLit?]

theorem normal_bool (b : Bool) : (bool b).Normal := everywhere_bool.2 trivial

/-! ## Simplified terms are normal -/

section

variable {c a b : Term}

theorem Normal.negated (ha : a.Normal) : a.negated.Normal := by
  unfold Term.negated
  split
  next => exact normal_bool _
  next => exact (everywhere_not.1 ha).2
  next hbool hnot =>
    have hroot : (not a).Folded := by
      cases a with
      | bool p => exact absurd rfl (hbool p)
      | not d => exact absurd rfl (hnot d)
      | const | int | real | arith | div | neg | ite | eq | compare | junction | implies | quantified =>
        exact ⟨rfl, rfl⟩
    exact everywhere_not.2 ⟨hroot, ha⟩

theorem Normal.implied (ha : a.Normal) (hb : b.Normal) : (a.implied b).Normal := by
  unfold Term.implied
  split
  next => exact normal_bool _
  next => exact normal_bool _
  next => exact hb
  next hfalse htrue hconclusion =>
    have hroot : (implies a b).Folded := by
      refine ⟨Option.eq_none_iff_forall_ne_some.2 fun p hp => ?_, fun hp => hconclusion (boolLit?_eq_some_iff.1 hp)⟩
      cases p with
      | false => exact hfalse (boolLit?_eq_some_iff.1 hp)
      | true => exact htrue (boolLit?_eq_some_iff.1 hp)
    exact everywhere_implies.2 ⟨hroot, ha, hb⟩

theorem Normal.chosen (hc : c.Normal) (ha : a.Normal) (hb : b.Normal) : (c.chosen a b).Normal := by
  unfold Term.chosen
  split
  next => exact ha
  next => exact hb
  next htrue hfalse =>
    have hroot : (ite c a b).Folded := by
      refine Option.eq_none_iff_forall_ne_some.2 fun p hp => ?_
      cases p with
      | false => exact hfalse (boolLit?_eq_some_iff.1 hp)
      | true => exact htrue (boolLit?_eq_some_iff.1 hp)
    exact everywhere_ite.2 ⟨hroot, hc, ha, hb⟩

theorem Normal.bound (q : Quantifier) (binders : List Binder) (ha : a.Normal) : (a.bound q binders).Normal := by
  unfold Term.bound
  split
  next => exact normal_bool _
  next hbool =>
    have hroot : (quantified q binders a).Folded :=
      Option.eq_none_iff_forall_ne_some.2 fun p hp => hbool p (boolLit?_eq_some_iff.1 hp)
    exact everywhere_quantified.2 ⟨hroot, ha⟩

end

section

variable {j : Junction} {u : Term} {us ts : List Term}

/-- What a normal operand adds to a junction is normal and kept there. -/
theorem Normal.operands (hu : u.Normal) (h : j.operands u = some us) : ∀ t ∈ us, t.Normal ∧ t.Kept j := by
  cases u with
  | bool p =>
    rw [Junction.operands] at h
    split at h
    · cases h
      exact List.forall_mem_nil _
    · cases h
  | junction k ts =>
    rw [Junction.operands] at h
    split at h
    next hk =>
      -- a junction of the same kind is opened, and its own operands are kept for the same reason
      cases h
      subst hk
      obtain ⟨hroot, hts⟩ := everywhere_junction.1 hu
      exact fun t ht => ⟨hts t ht, hroot.2 t ht⟩
    next hk =>
      cases h
      exact List.forall_mem_singleton.2 ⟨hu, rfl, fun hj => hk (Option.some.inj hj)⟩
  | const | int | real | arith | div | neg | ite | eq | compare | not | implies | quantified =>
    cases h
    exact List.forall_mem_singleton.2 ⟨hu, rfl, fun hj => by cases hj⟩

theorem normal_close : ∀ {us : List Term}, (∀ t ∈ us, t.Normal ∧ t.Kept j) → (j.close us).Normal
  | [], _ => normal_bool _
  | [t], h => (h t List.mem_cons_self).1
  | t :: u :: rest, h => by
    have hlength : 2 ≤ (t :: u :: rest).length := by simp
    exact everywhere_junction.2 ⟨⟨hlength, fun x hx => (h x hx).2⟩, fun x hx => (h x hx).1⟩

theorem simplifyOperands_normal (hts : ∀ t ∈ ts, t.simplify.Normal) (h : simplifyOperands j ts = some us) :
    ∀ t ∈ us, t.Normal ∧ t.Kept j := by
  induction ts generalizing us with
  | nil =>
    cases h
    exact List.forall_mem_nil _
  | cons t ts ih =>
    rw [List.forall_mem_cons] at hts
    rw [simplifyOperands] at h
    rcases hops : j.operands t.simplify with _ | vs
    · rw [hops] at h; cases h
    rw [hops] at h
    obtain ⟨ws, hws, rfl⟩ := Option.map_eq_some_iff.1 h
    exact List.forall_mem_append.2 ⟨hts.1.operands hops, ih hts.2 hws⟩

end

theorem normal_simplify (t : Term) : t.simplify.Normal := by
  induction t with
  | const name s => exact everywhere_const.2 trivial
  | bool p => exact normal_bool p
  | int n => exact everywhere_int.2 trivial
  | real q => exact everywhere_real.2 trivial
  | arith op a b iha ihb => exact everywhere_arith.2 ⟨trivial, iha, ihb⟩
  | div a b iha ihb => exact everywhere_div.2 ⟨trivial, iha, ihb⟩
  | neg a ih => exact everywhere_neg.2 ⟨trivial, ih⟩
  | ite c a b ihc iha ihb => exact ihc.chosen iha ihb
  | eq a b iha ihb => exact everywhere_eq.2 ⟨trivial, iha, ihb⟩
  | compare op a b iha ihb => exact everywhere_compare.2 ⟨trivial, iha, ihb⟩
  | junction j ts ih =>
    rw [simplify]
    split
    next us hus => exact normal_close (simplifyOperands_normal ih hus)
    next => exact normal_bool _
  | not a ih => exact ih.negated
  | implies a b iha ihb => exact iha.implied ihb
  | quantified q binders body ih => exact ih.bound q binders

/-! ## Normal terms are left alone -/

section

variable {c a b : Term}

theorem negated_of_folded (h : (not a).Folded) : a.negated = not a := by
  obtain ⟨hbool, hnot⟩ := h
  cases a with
  | bool p => cases hbool
  | not d => cases hnot
  | const | int | real | arith | div | neg | ite | eq | compare | junction | implies | quantified => rfl

theorem implied_of_folded (h : (implies a b).Folded) : a.implied b = implies a b := by
  obtain ⟨ha, hb⟩ := h
  unfold implied
  split
  next => cases ha
  next => exact absurd rfl hb
  next => cases ha
  next => rfl

theorem chosen_of_folded (h : (ite c a b).Folded) : c.chosen a b = ite c a b := by
  unfold chosen
  split
  next => cases h
  next => cases h
  next => rfl

theorem bound_of_folded {q : Quantifier} {binders : List Binder} (h : (quantified q binders a).Folded) :
    a.bound q binders = quantified q binders a := by
  unfold bound
  split
  next => cases h
  next => rfl

end

section

variable {j : Junction} {ts : List Term}

/-- An operand that is kept is added as it stands. -/
theorem Kept.operands {t : Term} (h : t.Kept j) : j.operands t = some [t] := by
  obtain ⟨hbool, hjunction⟩ := h
  cases t with
  | bool p => cases hbool
  | junction k us => exact if_neg fun hk => hjunction (congrArg some hk)
  | const | int | real | arith | div | neg | ite | eq | compare | not | implies | quantified => rfl

theorem simplifyOperands_of_kept (h : ∀ t ∈ ts, t.simplify = t ∧ t.Kept j) : simplifyOperands j ts = some ts := by
  induction ts with
  | nil => rfl
  | cons t ts ih =>
    rw [List.forall_mem_cons] at h
    rw [simplifyOperands, h.1.1, h.1.2.operands, ih h.2]
    rfl

theorem close_of_two_le : ∀ {ts : List Term}, 2 ≤ ts.length → j.close ts = junction j ts
  | _ :: _ :: _, _ => rfl

end

theorem Normal.simplify_eq {t : Term} (h : t.Normal) : t.simplify = t := by
  induction t with
  | const name s => rfl
  | bool p => rfl
  | int n => rfl
  | real q => rfl
  | arith op a b iha ihb =>
    obtain ⟨-, ha, hb⟩ := everywhere_arith.1 h
    rw [simplify, iha ha, ihb hb]
  | div a b iha ihb =>
    obtain ⟨-, ha, hb⟩ := everywhere_div.1 h
    rw [simplify, iha ha, ihb hb]
  | neg a ih =>
    obtain ⟨-, ha⟩ := everywhere_neg.1 h
    rw [simplify, ih ha]
  | ite c a b ihc iha ihb =>
    obtain ⟨hroot, hc, ha, hb⟩ := everywhere_ite.1 h
    rw [simplify, ihc hc, iha ha, ihb hb, chosen_of_folded hroot]
  | eq a b iha ihb =>
    obtain ⟨-, ha, hb⟩ := everywhere_eq.1 h
    rw [simplify, iha ha, ihb hb]
  | compare op a b iha ihb =>
    obtain ⟨-, ha, hb⟩ := everywhere_compare.1 h
    rw [simplify, iha ha, ihb hb]
  | junction j ts ih =>
    obtain ⟨⟨hlength, hkept⟩, hts⟩ := everywhere_junction.1 h
    rw [simplify, simplifyOperands_of_kept fun t ht => ⟨ih t ht (hts t ht), hkept t ht⟩]
    exact close_of_two_le hlength
  | not a ih =>
    obtain ⟨hroot, ha⟩ := everywhere_not.1 h
    rw [simplify, ih ha, negated_of_folded hroot]
  | implies a b iha ihb =>
    obtain ⟨hroot, ha, hb⟩ := everywhere_implies.1 h
    rw [simplify, iha ha, ihb hb, implied_of_folded hroot]
  | quantified q binders body ih =>
    obtain ⟨hroot, hbody⟩ := everywhere_quantified.1 h
    rw [simplify, ih hbody, bound_of_folded hroot]

/-- Simplification gives a normal form, and it leaves a term alone exactly if the term is one. -/
theorem simplify_reaches_normal_form (t : Term) :
    t.simplify.Normal ∧ (t.simplify = t ↔ t.Normal) ∧ t.simplify.simplify = t.simplify :=
  ⟨t.normal_simplify, ⟨fun h => h ▸ t.normal_simplify, Normal.simplify_eq⟩, t.normal_simplify.simplify_eq⟩

/-- A choice with a known condition brings a conjunction into a conjunction, which is opened in the same pass. -/
example :
    (and [boolConst "p", ite (bool true) (and [boolConst "q", not (not (boolConst "r"))]) (bool false)]).simplify =
      and [boolConst "p", boolConst "q", boolConst "r"] := rfl

end Term

end RoadPolicy
