/-
Evaluation is safe: a term without quantifiers whose sorts fit, under an assignment that gives every
constant a scalar of its kind, has a value of the kind of its sort, or its arithmetic fails. It never
misses a constant and never meets a scalar of the wrong kind.
-/
import RoadPolicy.Formula.Eval
import RoadPolicy.Proofs.DictEntries
import RoadPolicy.Proofs.Formula.FittingSorts
import RoadPolicy.Proofs.Formula.Subterms

namespace RoadPolicy

/-! ## Safe computations -/

/-- A value with a property, or a failure of arithmetic. -/
def Safe {α : Type} (P : α → Prop) : Except EvalError α → Prop
  | .ok a => P a
  | .error e => e = .divisionByZero ∨ e = .overflow

namespace Safe

variable {α β : Type} {P : α → Prop} {Q : β → Prop}

theorem bind {x : Except EvalError α} {f : α → Except EvalError β} (hx : Safe P x) (hf : ∀ a, P a → Safe Q (f a)) :
    Safe Q (x >>= f) := by
  cases x with
  | error e => exact hx
  | ok a => exact hf a hx

theorem imp {x : Except EvalError α} {P' : α → Prop} (hx : Safe P x) (h : ∀ a, P a → P' a) : Safe P' x := by
  cases x with
  | error e => exact hx
  | ok a => exact h a hx

end Safe

namespace Scalar

/-- A truth value for a formula, an integer or a real for a number. -/
def OfKind (s : TermSort) (v : Scalar) : Prop := v.sort = .bool ↔ s = .bool

variable {v w : Scalar}

theorem truth_safe (h : v.sort = .bool) : Safe (fun _ => True) v.truth := by
  cases v with
  | bool b => trivial
  | int n | real x => cases h

theorem number_safe (h : v.sort ≠ .bool) : Safe (fun _ => True) v.number := by
  cases v with
  | bool b => exact absurd rfl h
  | int n | real x => trivial

theorem quotient_safe (x y : Float) : Safe (fun v => v.sort ≠ .bool) (quotient x y) := by
  unfold quotient
  split
  · exact .inl rfl
  · exact TermSort.noConfusion

theorem negated_safe (h : v.sort ≠ .bool) : Safe (fun u => u.sort ≠ .bool) v.negated := by
  cases v with
  | bool b => exact absurd rfl h
  | int n =>
    rw [negated]
    split
    · exact TermSort.noConfusion
    · exact .inr rfl
  | real x => exact TermSort.noConfusion

theorem equal_safe (h : v.sort = .bool ↔ w.sort = .bool) : Safe (fun _ => True) (v.equal w) := by
  unfold equal
  split
  · trivial
  · trivial
  · rename_i hbool _
    -- one truth value would make both so, and that is the first case
    have hv : v.sort ≠ .bool := by
      intro hv
      cases v <;> cases w <;> simp_all [sort]
    have hw : w.sort ≠ .bool := fun hw => hv (h.2 hw)
    exact (number_safe hv).bind fun x _ => (number_safe hw).bind fun y _ => trivial

end Scalar

theorem Arith.apply_safe {v w : Scalar} (op : Arith) (hv : v.sort ≠ .bool) (hw : w.sort ≠ .bool) :
    Safe (fun u => u.sort ≠ .bool) (op.apply v w) := by
  unfold apply
  split
  · split
    · exact TermSort.noConfusion
    · exact .inr rfl
  · exact (Scalar.number_safe hv).bind fun x _ => (Scalar.number_safe hw).bind fun y _ => TermSort.noConfusion

/-! ## Terms -/

namespace Term

variable {env : Assignment} {t a b : Term} {ts : List Term}

/-- A scalar of its kind for every occurrence in a list. -/
def Supplies (env : Assignment) (occurrences : List (String × TermSort)) : Prop :=
  ∀ o ∈ occurrences, ∃ v, env.get? o.1 = some v ∧ v.OfKind o.2

theorem supplies_append {os ps : List (String × TermSort)} :
    Supplies env (os ++ ps) ↔ Supplies env os ∧ Supplies env ps := List.forall_mem_append

/-- The term has a value of the kind of its sort, or its arithmetic fails. -/
def EvalSafe (env : Assignment) (t : Term) : Prop := Safe (Scalar.OfKind t.sort) (t.eval env)

theorem EvalSafe.number (h : t.EvalSafe env) (hsort : t.sort ≠ .bool) :
    Safe (fun _ => True) (t.eval env >>= Scalar.number) :=
  h.bind fun _ hv => Scalar.number_safe fun hbool => hsort (hv.1 hbool)

theorem EvalSafe.truth (h : t.EvalSafe env) (hsort : t.sort = .bool) :
    Safe (fun _ => True) (t.eval env >>= Scalar.truth) :=
  h.bind fun _ hv => Scalar.truth_safe (hv.2 hsort)

theorem intValue_ofKind (n : Int) : (intValue n).OfKind .int := by
  unfold intValue
  split <;> simp [Scalar.OfKind, Scalar.sort]

theorem evalJunction_safe {j : Junction} (h : ∀ t ∈ ts, t.EvalSafe env ∧ t.sort = .bool) :
    Safe (Scalar.OfKind .bool) (evalJunction env j ts) := by
  induction ts with
  | nil => rw [evalJunction_nil]; exact Iff.rfl
  | cons t ts ih =>
    rw [List.forall_mem_cons] at h
    rw [evalJunction, ← bind_assoc]
    refine (h.1.1.truth h.1.2).bind fun p _ => ?_
    split
    · exact ih h.2
    · exact Iff.rfl

/-- The part that division and comparison share: both operands are read as numbers. -/
theorem bothNumbers_safe {P : Scalar → Prop} {f : Float → Float → Except EvalError Scalar} (ha : a.EvalSafe env)
    (hb : b.EvalSafe env) (hna : a.sort ≠ .bool) (hnb : b.sort ≠ .bool) (hf : ∀ x y, Safe P (f x y)) :
    Safe P (do let x ← (← a.eval env).number; let y ← (← b.eval env).number; f x y) := by
  rw [← bind_assoc]
  refine (ha.number hna).bind fun x _ => ?_
  rw [← bind_assoc]
  exact (hb.number hnb).bind fun y _ => hf x y

/-- Evaluation is safe when every occurrence of a constant has a scalar of its kind. -/
theorem Fits.evalSafe {Γ : Signature} (h : t.Fits Γ) (hq : t.quantifierFree = true)
    (hs : Supplies env (t.freeOccurrences [])) : t.EvalSafe env := by
  -- no quantifier is met, so the signature stays the same all the way down
  induction t with
  | const name s =>
    obtain ⟨v, hv, hkind⟩ := hs (name, s) (by simp [freeOccurrences])
    rw [EvalSafe, eval, hv]
    exact hkind
  | bool b =>
    rw [EvalSafe, eval]
    exact Iff.rfl
  | int n =>
    rw [EvalSafe, eval]
    exact intValue_ofKind n
  | real q =>
    rw [EvalSafe, eval]
    exact iff_of_false TermSort.noConfusion TermSort.noConfusion
  | arith op a b iha ihb =>
    rw [quantifierFree, Bool.and_eq_true] at hq
    rw [freeOccurrences, supplies_append] at hs
    rw [EvalSafe, eval]
    refine (iha h.1.1 hq.1 hs.1).bind fun v hv => (ihb h.2.1 hq.2 hs.2).bind fun w hw => ?_
    have hnumbers := op.apply_safe (fun hbool => h.1.2 (hv.1 hbool)) (fun hbool => h.2.2 (hw.1 hbool))
    exact hnumbers.imp fun u hu => iff_of_false hu (arith_sort_ne_bool op a b)
  | div a b iha ihb =>
    rw [quantifierFree, Bool.and_eq_true] at hq
    rw [freeOccurrences, supplies_append] at hs
    rw [EvalSafe, eval]
    refine bothNumbers_safe (iha h.1.1 hq.1 hs.1) (ihb h.2.1 hq.2 hs.2) h.1.2 h.2.2 fun x y => ?_
    exact (Scalar.quotient_safe x y).imp fun u hu => iff_of_false hu TermSort.noConfusion
  | neg a ih =>
    rw [EvalSafe, eval]
    refine (ih h.1 hq hs).bind fun v hv => ?_
    exact (Scalar.negated_safe fun hbool => h.2 (hv.1 hbool)).imp fun u hu => iff_of_false hu h.2
  | ite c a b ihc iha ihb =>
    rw [quantifierFree, Bool.and_eq_true, Bool.and_eq_true] at hq
    rw [freeOccurrences, supplies_append, supplies_append] at hs
    obtain ⟨⟨hc, hsort⟩, ha, hb, hab⟩ := h
    have hkind : ∀ v : Scalar, v.OfKind (ite c a b).sort ↔ v.OfKind a.sort := by
      intro v
      rw [Scalar.OfKind, Scalar.OfKind, ite_sort_eq_bool_iff]
    rw [EvalSafe, eval, ← bind_assoc]
    refine ((ihc hc hq.1.1 hs.1.1).truth hsort).bind fun p _ => ?_
    split
    · exact (iha ha hq.1.2 hs.1.2).imp fun v hv => (hkind v).2 hv
    · exact (ihb hb hq.2 hs.2).imp fun v hv => (hkind v).2 (hv.trans hab.symm)
  | eq a b iha ihb =>
    rw [quantifierFree, Bool.and_eq_true] at hq
    rw [freeOccurrences, supplies_append] at hs
    rw [EvalSafe, eval]
    refine (iha h.1 hq.1 hs.1).bind fun v hv => (ihb h.2.1 hq.2 hs.2).bind fun w hw => ?_
    exact (Scalar.equal_safe (hv.trans (h.2.2.trans hw.symm))).bind fun p _ => Iff.rfl
  | compare op a b iha ihb =>
    rw [quantifierFree, Bool.and_eq_true] at hq
    rw [freeOccurrences, supplies_append] at hs
    rw [EvalSafe, eval]
    exact bothNumbers_safe (iha h.1.1 hq.1 hs.1) (ihb h.2.1 hq.2 hs.2) h.1.2 h.2.2 fun x y => Iff.rfl
  | junction j ts ih =>
    rw [quantifierFree, quantifierFreeAll_iff] at hq
    rw [freeOccurrences, freeOccurrencesAll_eq] at hs
    rw [EvalSafe, eval_junction]
    refine evalJunction_safe fun t ht => ?_
    obtain ⟨hfits, hsort⟩ := fitsAll_iff.1 h t ht
    exact ⟨ih t ht hfits (hq t ht) fun o ho => hs o (List.mem_flatMap.2 ⟨t, ht, ho⟩), hsort⟩
  | not a ih =>
    rw [EvalSafe, eval, ← bind_assoc]
    exact ((ih h.1 hq hs).truth h.2).bind fun p _ => Iff.rfl
  | implies a b iha ihb =>
    rw [quantifierFree, Bool.and_eq_true] at hq
    rw [freeOccurrences, supplies_append] at hs
    rw [EvalSafe, eval, ← bind_assoc]
    refine ((iha h.1.1 hq.1 hs.1).truth h.1.2).bind fun p _ => ?_
    split
    · rw [← bind_assoc]
      exact ((ihb h.2.1 hq.2 hs.2).truth h.2.2).bind fun q _ => Iff.rfl
    · exact Iff.rfl
  | quantified q binders body => cases hq

/-! ## Formulas -/

end Term

end RoadPolicy
