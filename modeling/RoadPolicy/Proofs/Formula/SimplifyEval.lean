/-
Simplification refines evaluation. Where a term has a value, the simplified term has the same value;
where it has none, the simplified term may have one, since an operand that failed may be gone. No
term has to be well-sorted for this: a value says enough about the operands that were visited, and
simplification keeps the order in which they are.
-/
import RoadPolicy.Formula.Eval
import RoadPolicy.Formula.Simplify
import RoadPolicy.Proofs.Computation
import RoadPolicy.Proofs.Formula.Meaning

namespace RoadPolicy

/-! ## Results that keep every value -/

/-- The second computation has the value of the first one, if that has one. -/
def KeepsValue {ε α : Type} (x y : Except ε α) : Prop := ∀ a, x = .ok a → y = .ok a

namespace KeepsValue

variable {ε α β : Type}

theorem refl (x : Except ε α) : KeepsValue x x := fun _ h => h

theorem trans {x y z : Except ε α} (h : KeepsValue x y) (h' : KeepsValue y z) : KeepsValue x z :=
  fun a ha => h' a (h a ha)

/-- Computations that start and go on keeping values do so as a whole. -/
theorem bind {x y : Except ε α} {f g : α → Except ε β} (h : KeepsValue x y) (hf : ∀ a, KeepsValue (f a) (g a)) :
    KeepsValue (x >>= f) (y >>= g) := by
  intro b hb
  obtain ⟨a, hx, hfa⟩ := bind_eq_ok hb
  rw [h a hx]
  exact hf a b hfa

end KeepsValue

theorem Scalar.truth_eq_ok_iff {s : Scalar} {p : Bool} : s.truth = .ok p ↔ s = .bool p := by
  cases s with
  | bool b =>
    rw [truth]
    constructor
    · rintro ⟨⟩; rfl
    · rintro ⟨⟩; rfl
  | int n =>
    constructor
    · intro h; cases h
    · intro h; cases h
  | real x =>
    constructor
    · intro h; cases h
    · intro h; cases h

namespace Term

variable {env : Assignment} {j : Junction}

/-- A term that has the value of another one, if that has one. -/
def Refines (env : Assignment) (u t : Term) : Prop := KeepsValue (t.eval env) (u.eval env)

/-! ## Inversion of values -/

/-- A subterm read as a truth value. -/
theorem truth_bind_eq_ok {t : Term} {f : Bool → Except EvalError Scalar} {v : Scalar}
    (h : (do let p ← (← t.eval env).truth; f p) = .ok v) : ∃ p, t.eval env = .ok (.bool p) ∧ f p = .ok v := by
  obtain ⟨s, hs, h⟩ := bind_eq_ok h
  obtain ⟨p, hp, h⟩ := bind_eq_ok h
  rw [Scalar.truth_eq_ok_iff] at hp
  exact ⟨p, hp ▸ hs, h⟩

theorem eval_not_eq_ok {a : Term} {v : Scalar} (h : (not a).eval env = .ok v) :
    ∃ p, a.eval env = .ok (.bool p) ∧ v = .bool !p := by
  rw [eval] at h
  obtain ⟨p, hp, h⟩ := truth_bind_eq_ok h
  cases h
  exact ⟨p, hp, rfl⟩

/-- The conclusion is visited only if the premise is true. -/
theorem eval_implies_eq_ok {a b : Term} {v : Scalar} (h : (implies a b).eval env = .ok v) :
    (a.eval env = .ok (.bool false) ∧ v = .bool true) ∨
      a.eval env = .ok (.bool true) ∧ ∃ q, b.eval env = .ok (.bool q) ∧ v = .bool q := by
  rw [eval] at h
  obtain ⟨p, hp, h⟩ := truth_bind_eq_ok h
  cases p with
  | false =>
    cases h
    exact .inl ⟨hp, rfl⟩
  | true =>
    obtain ⟨q, hq, h⟩ := truth_bind_eq_ok h
    cases h
    exact .inr ⟨hp, q, hq, rfl⟩

/-- Only the branch that is chosen is visited. -/
theorem eval_ite_eq_ok {c a b : Term} {v : Scalar} (h : (ite c a b).eval env = .ok v) :
    ∃ p : Bool, c.eval env = .ok (.bool p) ∧ (if p then a.eval env else b.eval env) = .ok v := by
  rw [eval] at h
  exact truth_bind_eq_ok h

theorem evalJunction_cons_eq_ok {t : Term} {ts : List Term} {v : Scalar} (h : evalJunction env j (t :: ts) = .ok v) :
    ∃ p, t.eval env = .ok (.bool p) ∧ (if p = j.unit then evalJunction env j ts else .ok (.bool !j.unit)) = .ok v := by
  rw [evalJunction] at h
  exact truth_bind_eq_ok h

/-! ## Rules -/

namespace Refines

variable {u v w a b c : Term}

theorem arith (op : Arith) (hu : Refines env u a) (hv : Refines env v b) :
    Refines env (.arith op u v) (.arith op a b) := by
  unfold Refines
  rw [eval, eval]
  exact hu.bind fun s => hv.bind fun t => .refl _

theorem div (hu : Refines env u a) (hv : Refines env v b) : Refines env (.div u v) (.div a b) := by
  unfold Refines
  rw [eval, eval]
  exact hu.bind fun s => (KeepsValue.refl _).bind fun x => hv.bind fun t => .refl _

theorem neg (hu : Refines env u a) : Refines env (.neg u) (.neg a) := by
  unfold Refines
  rw [eval, eval]
  exact hu.bind fun s => .refl _

theorem eq (hu : Refines env u a) (hv : Refines env v b) : Refines env (.eq u v) (.eq a b) := by
  unfold Refines
  rw [eval, eval]
  exact hu.bind fun s => hv.bind fun t => .refl _

theorem compare (op : Comparison) (hu : Refines env u a) (hv : Refines env v b) :
    Refines env (.compare op u v) (.compare op a b) := by
  unfold Refines
  rw [eval, eval]
  exact hu.bind fun s => (KeepsValue.refl _).bind fun x => hv.bind fun t => .refl _

/-- Two negations cancel: what they negate has a truth value, or they have none. -/
theorem not (hu : Refines env u a) : Refines env u.negated (.not a) := by
  intro x hx
  obtain ⟨p, hp, rfl⟩ := eval_not_eq_ok hx
  have hup := hu _ hp
  unfold negated
  split
  · rename_i q
    rw [eval] at hup ⊢
    cases hup
    rfl
  · rename_i u'
    obtain ⟨q, hq, hpq⟩ := eval_not_eq_ok hup
    cases hpq
    rw [hq, Bool.not_not]
  · rw [eval, hup]
    rfl

theorem implies (hu : Refines env u a) (hv : Refines env v b) : Refines env (u.implied v) (.implies a b) := by
  intro x hx
  have hcases := eval_implies_eq_ok hx
  unfold implied
  split
  · -- the premise is false, so the conclusion was not visited
    rcases hcases with ⟨_, rfl⟩ | ⟨ha, _⟩
    · rfl
    · have hp := hu _ ha
      rw [eval] at hp
      cases hp
  · rcases hcases with ⟨_, rfl⟩ | ⟨_, q, hb, rfl⟩
    · rfl
    · exact hv _ hb
  · rcases hcases with ⟨ha, _⟩ | ⟨_, q, hb, rfl⟩
    · have hp := hu _ ha
      rw [eval] at hp
      cases hp
    · exact hv _ hb
  · rcases hcases with ⟨ha, rfl⟩ | ⟨ha, q, hb, rfl⟩
    · rw [eval, hu _ ha]; rfl
    · rw [eval, hu _ ha, hv _ hb]; rfl

theorem ite (hw : Refines env w c) (hu : Refines env u a) (hv : Refines env v b) :
    Refines env (w.chosen u v) (.ite c a b) := by
  intro x hx
  obtain ⟨p, hc, hbranch⟩ := eval_ite_eq_ok hx
  have hwp := hw _ hc
  have hchoice : (if p then u.eval env else v.eval env) = .ok x := by
    cases p with
    | true => exact hu x hbranch
    | false => exact hv x hbranch
  unfold chosen
  split
  · rw [eval] at hwp
    cases hwp
    exact hchoice
  · rw [eval] at hwp
    cases hwp
    exact hchoice
  · rw [eval, hwp]
    exact hchoice

/-- A quantified term has no value. -/
theorem quantified (q : Quantifier) (binders : List Binder) (u a : Term) :
    Refines env u (.quantified q binders a) := by
  intro x hx
  rw [eval] at hx
  cases hx

end Refines

/-! ## Operands of a junction -/

/-- The operands of a nested junction of the same kind are visited as the nested junction is. -/
theorem evalJunction_append (ts us : List Term) :
    evalJunction env j (ts ++ us) = evalJunction env j (junction j ts :: us) := by
  rw [evalJunction, eval]
  induction ts with
  | nil =>
    rw [evalJunction, List.nil_append]
    show _ = if j.unit = j.unit then _ else _
    rw [if_pos rfl]
  | cons t ts ih =>
    rw [List.cons_append, evalJunction, evalJunction]
    rcases t.eval env with e | s
    · rfl
    · rcases hs : s.truth with e | p
      · show s.truth >>= _ = (s.truth >>= _) >>= _
        rw [hs]
        rfl
      · show s.truth >>= _ = (s.truth >>= _) >>= _
        rw [hs]
        show (if p = j.unit then _ else _) = (if p = j.unit then _ else _) >>= _
        by_cases hp : p = j.unit
        · rw [if_pos hp, if_pos hp, ih]
        · -- this operand decides the nested junction and with it the outer one
          rw [if_neg hp, if_neg hp]
          show _ = if (!j.unit) = j.unit then _ else _
          rw [if_neg (Bool.not_ne_self _)]

/-- What a simplified operand adds to a junction is visited as the operand is. -/
theorem evalJunction_operands {u : Term} {us : List Term} (h : j.operands u = some us) (rest : List Term) :
    evalJunction env j (us ++ rest) = evalJunction env j (u :: rest) := by
  unfold Junction.operands at h
  split at h
  · split at h
    · rename_i p hp
      cases h
      subst hp
      rw [List.nil_append, evalJunction, eval]
      show _ = if j.unit = j.unit then _ else _
      rw [if_pos rfl]
    · cases h
  · split at h
    · rename_i hk
      cases h
      subst hk
      exact evalJunction_append us rest
    · cases h; rfl
  · cases h; rfl

theorem eq_of_operands_eq_none {u : Term} (h : j.operands u = none) : u = .bool !j.unit := by
  unfold Junction.operands at h
  split at h
  · split at h
    · cases h
    · rename_i p hp
      rw [Bool.eq_not.2 hp]
  · split at h <;> cases h
  · cases h

theorem evalJunction_cons {u t : Term} {us ts : List Term} (hu : Refines env u t)
    (h : KeepsValue (evalJunction env j ts) (evalJunction env j us)) :
    KeepsValue (evalJunction env j (t :: ts)) (evalJunction env j (u :: us)) := by
  rw [evalJunction, evalJunction]
  refine hu.bind fun s => (KeepsValue.refl _).bind fun p => ?_
  by_cases hp : p = j.unit
  · rw [if_pos hp, if_pos hp]
    exact h
  · rw [if_neg hp, if_neg hp]
    exact .refl _

/-- The simplified operands have the value of the operands. If one of them decides the junction, the
junction has no other value, whether that operand is reached or an earlier one decides. -/
theorem simplifyOperands_refines : ∀ ts : List Term, (∀ t ∈ ts, Refines env t.simplify t) →
    (∀ us, simplifyOperands j ts = some us → KeepsValue (evalJunction env j ts) (evalJunction env j us)) ∧
    (simplifyOperands j ts = none → ∀ v, evalJunction env j ts = .ok v → v = .bool !j.unit)
  | [], _ => by
    rw [simplifyOperands]
    constructor
    · intro us h
      cases h
      exact .refl _
    · intro h
      cases h
  | t :: ts, hrefines => by
    have ht := hrefines t (List.mem_cons_self ..)
    obtain ⟨ihsome, ihnone⟩ := simplifyOperands_refines ts fun u hu => hrefines u (List.mem_cons_of_mem _ hu)
    rw [simplifyOperands]
    cases hop : j.operands t.simplify with
    | none =>
      have hsimp := eq_of_operands_eq_none hop
      constructor
      · intro us h
        cases h
      · intro _ v hv
        obtain ⟨p, hp, hv⟩ := evalJunction_cons_eq_ok hv
        have hval := ht _ hp
        rw [hsimp, eval] at hval
        cases hval
        rw [if_neg (Bool.not_ne_self _)] at hv
        cases hv
        rfl
    | some vs =>
      constructor
      · intro us h
        obtain ⟨rest, hrest, rfl⟩ := Option.map_eq_some_iff.1 h
        rw [evalJunction_operands hop]
        exact evalJunction_cons ht (ihsome rest hrest)
      · intro h v hv
        have hnone : simplifyOperands j ts = none := Option.map_eq_none_iff.1 h
        obtain ⟨p, -, hv⟩ := evalJunction_cons_eq_ok hv
        by_cases hp : p = j.unit
        · rw [if_pos hp] at hv
          exact ihnone hnone v hv
        · rw [if_neg hp] at hv
          cases hv
          rfl

/-- A junction of one operand has the value of this operand, if it has one. -/
theorem eval_close (us : List Term) : KeepsValue (evalJunction env j us) ((j.close us).eval env) := by
  rcases us with _ | ⟨u, _ | ⟨v, us⟩⟩
  · exact .refl _
  · intro x hx
    obtain ⟨p, hp, hx⟩ := evalJunction_cons_eq_ok hx
    have hxp : x = .bool p := by
      by_cases hunit : p = j.unit
      · rw [if_pos hunit, evalJunction] at hx
        cases hx
        rw [hunit]
      · rw [if_neg hunit] at hx
        cases hx
        rw [Bool.eq_not.2 hunit]
    rw [hxp]
    exact hp
  · rw [Junction.close, eval]
    exact .refl _

/-! ## The simplifier -/

theorem simplify_refines (env : Assignment) (t : Term) : Refines env t.simplify t := by
  induction t with
  | const name s => exact .refl _
  | bool b => exact .refl _
  | int n => exact .refl _
  | real q => exact .refl _
  | arith op a b iha ihb => exact iha.arith op ihb
  | div a b iha ihb => exact iha.div ihb
  | neg a ih => exact ih.neg
  | ite c a b ihc iha ihb => exact ihc.ite iha ihb
  | eq a b iha ihb => exact iha.eq ihb
  | compare op a b iha ihb => exact iha.compare op ihb
  | junction j ts ih =>
    obtain ⟨hsome, hnone⟩ := simplifyOperands_refines (j := j) ts ih
    unfold Refines
    rw [simplify, eval]
    split
    · rename_i us hus
      exact (hsome us hus).trans (eval_close us)
    · rename_i hus
      intro v hv
      rw [hnone hus v hv]
      rfl
  | not a ih => exact ih.not
  | implies a b iha ihb => exact iha.implies ihb
  | quantified q binders body ih => exact .quantified q binders _ body

/-- Simplification refines evaluation, for every term and every assignment: it never changes a value
and never makes evaluation fail, but it may give a value to a term that had none. -/
theorem simplify_keeps_value (env : Assignment) :
    (∀ (t : Term) (v : Scalar), t.eval env = .ok v → t.simplify.eval env = .ok v) ∧
    (∀ (t : Term) (e : EvalError), t.simplify.eval env = .error e → ∃ e', t.eval env = .error e') ∧
    ∃ (t : Term) (e : EvalError) (v : Scalar), t.eval env = .error e ∧ t.simplify.eval env = .ok v := by
  refine ⟨fun t => t.simplify_refines env, fun t e he => ?_, ?_⟩
  · rcases ht : t.eval env with e' | v
    · exact ⟨e', rfl⟩
    · rw [t.simplify_refines env v ht] at he
      cases he
  · exact ⟨implies (forAll [] (boolConst "p")) (bool true), .quantifier, .bool true, rfl, rfl⟩

/-- An ill-sorted junction whose second operand decides it, so that neither the unbound constant nor
the sum of a truth value after it is visited. -/
theorem simplify_keeps_value_decided :
    let env : Assignment := Dict.empty.insert "p" (.bool true)
    let p := boolConst "p"
    let t := or [not p, and [not (not p), and [p, bool true]], boolConst "x", p + int 1]
    t.eval env = .ok (.bool true) ∧
      t.simplify = or [not p, and [p, p], boolConst "x", p + int 1] ∧ t.simplify.eval env = .ok (.bool true) := by
  intro env p t
  have ht : t.eval env = .ok (.bool true) := by
    cbv
  exact ⟨ht, rfl, (simplify_keeps_value env).1 t _ ht⟩

end Term

end RoadPolicy
