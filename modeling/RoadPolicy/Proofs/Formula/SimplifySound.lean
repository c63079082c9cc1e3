/-
Simplification keeps what a term says. A simplified term may take the place of the term: it is
well-sorted too, it is a formula exactly when the term is one, it has no other free constants, and
it denotes the same value in every interpretation. Each rule of the simplifier is shown to respect
this relation; the simplifier then does by induction.
-/
import RoadPolicy.Formula.Simplify
import RoadPolicy.Proofs.Formula.WellSorted

namespace RoadPolicy

/-! ## Junctions of truth values -/

namespace Junction

variable (j : Junction) (p q r : Bool)

@[simp] theorem combine_unit : j.combine p j.unit = p := by
  cases j <;> simp [combine, unit]

@[simp] theorem unit_combine : j.combine j.unit p = p := by
  cases j <;> simp [combine, unit]

@[simp] theorem not_unit_combine : j.combine (!j.unit) p = !j.unit := by
  cases j <;> simp [combine, unit]

@[simp] theorem combine_not_unit : j.combine p (!j.unit) = !j.unit := by
  cases j <;> simp [combine, unit]

theorem combine_assoc : j.combine (j.combine p q) r = j.combine p (j.combine q r) := by
  cases j
  · exact Bool.and_assoc p q r
  · exact Bool.or_assoc p q r

end Junction

namespace Term

theorem meaningAll_append (j : Junction) (ts us : List Term) (I : Interpretation) :
    meaningAll j (ts ++ us) I = j.combine (meaningAll j ts I) (meaningAll j us I) := by
  induction ts with
  | nil => rw [List.nil_append, meaningAll, j.unit_combine]
  | cons t ts ih => rw [List.cons_append, meaningAll, meaningAll, ih, j.combine_assoc]

/-! ## Taking the place of a term -/

/-- The term `u` may take the place of `t`. -/
structure Replaces (Γ : Signature) (u t : Term) : Prop where
  sorted : u.WellSorted Γ
  kind : u.sort = .bool ↔ t.sort = .bool
  free : ∀ bound, u.freeOccurrences bound ⊆ t.freeOccurrences bound
  meaning : ∀ I, u.meaning I = t.meaning I

namespace Replaces

variable {Γ : Signature} {u v w a b c : Term}

theorem isFormula (h : Replaces Γ u a) (ha : a.sort = .bool) : u.IsFormula Γ := ⟨h.sorted, h.kind.2 ha⟩

theorem isNumber (h : Replaces Γ u a) (ha : a.sort ≠ .bool) : u.IsNumber Γ := ⟨h.sorted, fun hu => ha (h.kind.1 hu)⟩

theorem refl (h : a.WellSorted Γ) : Replaces Γ a a := ⟨h, Iff.rfl, fun _ _ => id, fun _ => rfl⟩

/-- A term whose only free constants are those of two others. -/
theorem free_append (hu : Replaces Γ u a) (hv : Replaces Γ v b) (bound : List String) :
    u.freeOccurrences bound ++ v.freeOccurrences bound ⊆ a.freeOccurrences bound ++ b.freeOccurrences bound :=
  List.append_subset.2 ⟨List.subset_append_of_subset_left _ (hu.free bound),
    List.subset_append_of_subset_right _ (hv.free bound)⟩

/-! ## Rules -/

theorem arith (op : Arith) (hu : Replaces Γ u a) (hv : Replaces Γ v b) (ha : a.sort ≠ .bool) (hb : b.sort ≠ .bool) :
    Replaces Γ (.arith op u v) (.arith op a b) where
  sorted := ⟨hu.isNumber ha, hv.isNumber hb⟩
  kind := iff_of_false (arith_sort_ne_bool op u v) (arith_sort_ne_bool op a b)
  free := hu.free_append hv
  meaning I := by rw [Term.meaning, Term.meaning, hu.meaning, hv.meaning]

theorem div (hu : Replaces Γ u a) (hv : Replaces Γ v b) (ha : a.sort ≠ .bool) (hb : b.sort ≠ .bool) :
    Replaces Γ (.div u v) (.div a b) where
  sorted := ⟨hu.isNumber ha, hv.isNumber hb⟩
  kind := Iff.rfl
  free := hu.free_append hv
  meaning I := by rw [Term.meaning, Term.meaning, hu.meaning, hv.meaning]

theorem neg (hu : Replaces Γ u a) (ha : a.sort ≠ .bool) : Replaces Γ (.neg u) (.neg a) where
  sorted := hu.isNumber ha
  kind := hu.kind
  free := hu.free
  meaning I := by rw [Term.meaning, Term.meaning, hu.meaning]

theorem eq (hu : Replaces Γ u a) (hv : Replaces Γ v b) (h : a.sort = .bool ↔ b.sort = .bool) :
    Replaces Γ (.eq u v) (.eq a b) where
  sorted := ⟨hu.sorted, hv.sorted, hu.kind.trans (h.trans hv.kind.symm)⟩
  kind := Iff.rfl
  free := hu.free_append hv
  meaning I := by rw [Term.meaning, Term.meaning, hu.meaning, hv.meaning]

theorem compare (op : Comparison) (hu : Replaces Γ u a) (hv : Replaces Γ v b) (ha : a.sort ≠ .bool)
    (hb : b.sort ≠ .bool) : Replaces Γ (.compare op u v) (.compare op a b) where
  sorted := ⟨hu.isNumber ha, hv.isNumber hb⟩
  kind := Iff.rfl
  free := hu.free_append hv
  meaning I := by rw [Term.meaning, Term.meaning, hu.meaning, hv.meaning]

/-- A truth value takes the place of a formula that always has this value. -/
theorem bool (p : Bool) (ha : a.sort = .bool) (h : ∀ I, a.meaning I = .truth p) : Replaces Γ (.bool p) a where
  sorted := trivial
  kind := iff_of_true rfl ha
  free _ := List.nil_subset _
  meaning I := (h I).symm

/-- Two negations cancel, since what they negate is a formula. -/
theorem not (hu : Replaces Γ u a) (ha : a.sort = .bool) : Replaces Γ u.negated (.not a) := by
  have hf := hu.isFormula ha
  unfold negated
  split
  · rename_i p
    exact bool _ rfl fun I => by rw [Term.meaning, ← hu.meaning]; rfl
  · rename_i u
    have hf' : u.IsFormula Γ := hf.1
    refine ⟨hf'.1, iff_of_true hf'.2 rfl, hu.free, fun I => ?_⟩
    rw [Term.meaning, ← hu.meaning, Term.meaning, hf'.meaning_eq]
    simp
  · exact ⟨hf, Iff.rfl, hu.free, fun I => by rw [Term.meaning, Term.meaning, hu.meaning]⟩

theorem implies (hu : Replaces Γ u a) (hv : Replaces Γ v b) (ha : a.sort = .bool) (hb : b.sort = .bool) :
    Replaces Γ (u.implied v) (.implies a b) := by
  have hfv := hv.isFormula hb
  unfold implied
  split
  · exact bool _ rfl fun I => by rw [Term.meaning, ← hu.meaning]; rfl
  · exact bool _ rfl fun I => by rw [Term.meaning, ← hv.meaning]; simp [Term.meaning]
  · refine ⟨hv.sorted, iff_of_true hfv.2 rfl, fun bound => ?_, fun I => ?_⟩
    · exact List.subset_append_of_subset_right _ (hv.free bound)
    · rw [Term.meaning, ← hu.meaning, ← hv.meaning, hfv.meaning_eq]
      simp [Term.meaning]
  · exact ⟨⟨hu.isFormula ha, hfv⟩, Iff.rfl, hu.free_append hv,
      fun I => by rw [Term.meaning, Term.meaning, hu.meaning, hv.meaning]⟩

/-- A choice whose condition is a truth value is one of its branches. Its sort may be narrower: an
integer may take the place of a choice between an integer and a real number. -/
theorem ite (hw : Replaces Γ w c) (hu : Replaces Γ u a) (hv : Replaces Γ v b) (hc : c.sort = .bool)
    (h : a.sort = .bool ↔ b.sort = .bool) : Replaces Γ (w.chosen u v) (.ite c a b) := by
  unfold chosen
  split
  · refine ⟨hu.sorted, hu.kind.trans (ite_sort_eq_bool_iff c a b).symm, fun bound => ?_, fun I => ?_⟩
    · rw [freeOccurrences, List.append_assoc]
      exact List.subset_append_of_subset_right _ (List.subset_append_of_subset_left _ (hu.free bound))
    · rw [Term.meaning, ← hw.meaning, hu.meaning]; rfl
  · refine ⟨hv.sorted, (hv.kind.trans h.symm).trans (ite_sort_eq_bool_iff c a b).symm, fun bound => ?_, fun I => ?_⟩
    · exact List.subset_append_of_subset_right _ (hv.free bound)
    · rw [Term.meaning, ← hw.meaning, hv.meaning]; rfl
  · refine ⟨⟨hw.isFormula hc, hu.sorted, hv.sorted, hu.kind.trans (h.trans hv.kind.symm)⟩, ?_, fun bound => ?_,
      fun I => ?_⟩
    · rw [ite_sort_eq_bool_iff, ite_sort_eq_bool_iff]; exact hu.kind
    · exact List.append_subset.2 ⟨List.subset_append_of_subset_left _ (hw.free_append hu bound),
        List.subset_append_of_subset_right _ (hv.free bound)⟩
    · rw [Term.meaning, Term.meaning, hw.meaning, hu.meaning, hv.meaning]

/-- A quantifier over a truth value is this value. -/
theorem quantified (q : Quantifier) (binders : List Binder) (hu : Replaces (Γ.bind binders) u a)
    (ha : a.sort = .bool) : Replaces Γ (u.bound q binders) (.quantified q binders a) := by
  unfold bound
  split
  · rename_i p
    refine bool p rfl fun I => ?_
    have hp : ∀ J, (a.meaning J).isTrue = true ↔ p = true := fun J => by rw [← hu.meaning]; rfl
    classical
    rw [Term.meaning]
    refine congrArg Datum.truth ?_
    rw [Bool.eq_iff_iff, decide_eq_true_iff]
    exact Interpretation.quantify_const q hp binders I
  · refine ⟨hu.isFormula ha, Iff.rfl, fun bound => hu.free _, fun I => ?_⟩
    have hsame : u.meaning = a.meaning := funext hu.meaning
    rw [Term.meaning, Term.meaning, hsame]

end Replaces

/-! ## Operands of a junction -/

theorem freeOccurrences_junction (j : Junction) (ts : List Term) (bound : List String) :
    (junction j ts).freeOccurrences bound = ts.flatMap (freeOccurrences bound) := by
  rw [freeOccurrences, freeOccurrencesAll_eq]

/-- A list of operands that may take the place of the junction of another list. -/
structure OperandsReplace (Γ : Signature) (j : Junction) (us ts : List Term) : Prop where
  formulas : ∀ u ∈ us, u.IsFormula Γ
  free : ∀ bound, us.flatMap (freeOccurrences bound) ⊆ ts.flatMap (freeOccurrences bound)
  meaning : ∀ I, meaningAll j us I = meaningAll j ts I

namespace OperandsReplace

variable {Γ : Signature} {j : Junction} {us vs ts ws : List Term} {u t : Term}

theorem append (h : OperandsReplace Γ j us ts) (h' : OperandsReplace Γ j vs ws) :
    OperandsReplace Γ j (us ++ vs) (ts ++ ws) where
  formulas := List.forall_mem_append.2 ⟨h.formulas, h'.formulas⟩
  free bound := by
    rw [List.flatMap_append, List.flatMap_append]
    exact List.append_subset.2 ⟨List.subset_append_of_subset_left _ (h.free bound),
      List.subset_append_of_subset_right _ (h'.free bound)⟩
  meaning I := by rw [meaningAll_append, meaningAll_append, h.meaning, h'.meaning]

/-- What a simplified operand adds to a junction takes the place of that operand. -/
theorem of_operands (hu : Replaces Γ u t) (ht : t.sort = .bool) (h : j.operands u = some us) :
    OperandsReplace Γ j us [t] := by
  have hf := hu.isFormula ht
  have hone : ∀ I, meaningAll j [t] I = (u.meaning I).isTrue := fun I => by
    rw [meaningAll, meaningAll, j.combine_unit, hu.meaning]
  have hfree : ∀ bound, u.freeOccurrences bound ⊆ [t].flatMap (freeOccurrences bound) := fun bound => by
    simpa using hu.free bound
  have hself : OperandsReplace Γ j [u] [t] := by
    refine ⟨by simpa using hf, fun bound => by simpa using hu.free bound, fun I => ?_⟩
    rw [hone, meaningAll, meaningAll, j.combine_unit]
  unfold Junction.operands at h
  split at h
  · split at h
    · rename_i p hp
      cases h
      exact ⟨by simp, fun _ => List.nil_subset _, fun I => by rw [hone, hp]; rfl⟩
    · cases h
  · rename_i k vs
    split at h
    · rename_i hk
      cases h
      subst hk
      -- the operands of a junction of the same kind take its place
      refine ⟨wellSortedAll_iff.1 hf.1, fun bound => ?_, fun I => by rw [hone]; rfl⟩
      rw [← freeOccurrences_junction k]
      exact hfree bound
    · cases h; exact hself
  · cases h; exact hself

/-- An operand that decides a junction has the value that the junction then has. -/
theorem decided (hu : Replaces Γ u t) (h : j.operands u = none) (I : Interpretation) :
    (t.meaning I).isTrue = !j.unit := by
  unfold Junction.operands at h
  split at h
  · split at h
    · cases h
    · rename_i p hp
      rw [← hu.meaning]
      show p = !j.unit
      cases p <;> cases hj : j.unit <;> simp_all
  · split at h <;> cases h
  · cases h

theorem close (h : OperandsReplace Γ j us ts) : Replaces Γ (j.close us) (.junction j ts) := by
  have hm : ∀ I, (Term.junction j ts).meaning I = .truth (meaningAll j us I) := fun I => by
    rw [Term.meaning, h.meaning]
  have hfree := h.free
  simp only [← freeOccurrences_junction j] at hfree
  -- no operand, one that stands for itself, or two at least
  rcases us with _ | ⟨u, _ | ⟨v, us⟩⟩
  · exact Replaces.bool _ rfl hm
  · have hu := h.formulas u (List.mem_cons_self ..)
    refine ⟨hu.1, iff_of_true hu.2 rfl, fun bound => ?_, fun I => ?_⟩
    · have := hfree bound
      rwa [freeOccurrences_junction, List.flatMap_singleton] at this
    · rw [hm, meaningAll, meaningAll, j.combine_unit]
      exact hu.meaning_eq I
  · exact ⟨wellSortedAll_iff.2 h.formulas, Iff.rfl, hfree, fun I => by rw [hm, Junction.close, Term.meaning]⟩

end OperandsReplace

/-- The operands of a junction, simplified one by one. If one of them decides the junction, no list
is left. -/
theorem simplifyOperands_spec {Γ : Signature} (j : Junction) :
    ∀ ts : List Term, (∀ t ∈ ts, Replaces Γ t.simplify t) → (∀ t ∈ ts, t.sort = .bool) →
      (∀ us, simplifyOperands j ts = some us → OperandsReplace Γ j us ts) ∧
      (simplifyOperands j ts = none → ∀ I, meaningAll j ts I = !j.unit)
  | [], _, _ => by
    constructor
    · intro us h
      rw [simplifyOperands] at h
      cases h
      exact ⟨by simp, fun _ => List.nil_subset _, fun _ => rfl⟩
    · intro h
      rw [simplifyOperands] at h
      cases h
  | t :: ts, hrep, hsort => by
    have ht := hrep t (List.mem_cons_self ..)
    obtain ⟨ihsome, ihnone⟩ := simplifyOperands_spec j ts (fun u hu => hrep u (List.mem_cons_of_mem _ hu))
      (fun u hu => hsort u (List.mem_cons_of_mem _ hu))
    rw [simplifyOperands]
    cases hop : j.operands t.simplify with
    | none =>
      -- one operand decides the junction, whatever the others are
      constructor
      · intro us h; cases h
      · intro _ I
        rw [meaningAll, OperandsReplace.decided ht hop I, j.not_unit_combine]
    | some vs =>
      have hvs := OperandsReplace.of_operands ht (hsort t (List.mem_cons_self ..)) hop
      constructor
      · intro us h
        obtain ⟨rest, hrest, rfl⟩ := Option.map_eq_some_iff.1 h
        exact hvs.append (ihsome rest hrest)
      · intro h I
        rw [meaningAll, ihnone (Option.map_eq_none_iff.1 h) I, j.combine_not_unit]

/-! ## The simplifier -/

theorem simplify_replaces (t : Term) : ∀ {Γ : Signature}, t.WellSorted Γ → Replaces Γ t.simplify t := by
  induction t with
  | const name s => exact Replaces.refl
  | bool b => exact Replaces.refl
  | int n => exact Replaces.refl
  | real q => exact Replaces.refl
  | arith op a b iha ihb => exact fun h => (iha h.1.1).arith op (ihb h.2.1) h.1.2 h.2.2
  | div a b iha ihb => exact fun h => (iha h.1.1).div (ihb h.2.1) h.1.2 h.2.2
  | neg a ih => exact fun h => (ih h.1).neg h.2
  | ite c a b ihc iha ihb => exact fun h => (ihc h.1.1).ite (iha h.2.1) (ihb h.2.2.1) h.1.2 h.2.2.2
  | eq a b iha ihb => exact fun h => (iha h.1).eq (ihb h.2.1) h.2.2
  | compare op a b iha ihb => exact fun h => (iha h.1.1).compare op (ihb h.2.1) h.1.2 h.2.2
  | junction j ts ih =>
    intro Γ h
    have hts := wellSortedAll_iff.1 h
    obtain ⟨hsome, hnone⟩ := simplifyOperands_spec j ts (fun t ht => ih t ht (hts t ht).1) (fun t ht => (hts t ht).2)
    rw [simplify]
    split
    · rename_i us hus
      exact (hsome us hus).close
    · rename_i hus
      exact Replaces.bool _ rfl fun I => by rw [meaning, hnone hus I]
  | not a ih => exact fun h => (ih h.1).not h.2
  | implies a b iha ihb => exact fun h => (iha h.1.1).implies (ihb h.2.1) h.1.2 h.2.2
  | quantified q binders body ih => exact fun h => (ih h.1).quantified q binders h.2

/-- Simplification never changes what a solver is asked: a simplified term is well-sorted, it is a
formula exactly when the term is one, its free constants occur free in the term, with the same
sorts, and it has the same value in every interpretation, whatever a quotient is there. -/
theorem simplify_keeps_meaning (Γ : Signature) (t : Term) (h : t.WellSorted Γ) :
    t.simplify.WellSorted Γ ∧ (t.simplify.sort = .bool ↔ t.sort = .bool) ∧
    t.simplify.freeOccurrences [] ⊆ t.freeOccurrences [] ∧
    (∀ name, t.simplify.freeConsts.contains name = true → t.freeConsts.contains name = true) ∧
    ∀ I : Interpretation, t.simplify.meaning I = t.meaning I := by
  have hr := t.simplify_replaces h
  refine ⟨hr.sorted, hr.kind, hr.free [], fun name hname => ?_, hr.meaning⟩
  obtain ⟨s, hs⟩ := (freeConsts_contains_iff _ name).1 hname
  exact (freeConsts_contains_iff _ name).2 ⟨s, hr.free [] hs⟩

/-- A quantified junction with a double negation, a decided operand and a nested junction. -/
theorem simplify_keeps_meaning_quantified :
    let x := realConst "x"
    let t := forAll [⟨"x", .real⟩]
      (or [and [not (not (x.lt (int 1))), x.ge (realConst "y")], bool false, or [boolConst "p"]])
    t.WellSorted .free ∧
      t.simplify = forAll [⟨"x", .real⟩] (or [and [x.lt (int 1), x.ge (realConst "y")], boolConst "p"]) ∧
      ∀ I : Interpretation, t.simplify.meaning I = t.meaning I := by
  intro x t
  have ht : t.WellSorted .free := by
    simp [t, x, forAll, or, and, lt, ge, realConst, boolConst, WellSorted, WellSortedAll, Signature.bind,
      Signature.free, sort]
  exact ⟨ht, rfl, (simplify_keeps_meaning .free t ht).2.2.2.2⟩

end Term

end RoadPolicy
