/-
Evaluation of integer terms: terms of truth values and integers of 64 bits, without quotients, real
numbers and quantifiers. Such a term fails only by overflow, or where its sorts do not fit. Its value
is the exact one as long as every comparison is between integers that are equal or have different
doubles, since an order comparison is made in doubles. Integers of at most 53 bits, and integers more
than 1024 apart, have different doubles.
-/
import Mathlib
import RoadPolicy.Proofs.Formula.SafeEval
import RoadPolicy.Proofs.Formula.SimplifyEval
import RoadPolicy.Proofs.Formula.SimplifySound
import RoadPolicy.Proofs.Number.IntegerDoubles

namespace RoadPolicy

/-! ## Integer terms -/

/-- What an integer term is made of, under an assignment: every constant has a scalar of its sort. -/
def Term.Integral (env : Assignment) : Term → Prop
  | const name s => s ≠ .real ∧ ∃ v, env.get? name = some v ∧ v.sort = s
  | int n => (int64? n).isSome = true
  | real _ => False
  | div _ _ => False
  | quantified _ _ _ => False
  | _ => True

/-- The exact value of a scalar that is not a double. -/
def Scalar.datum? : Scalar → Option Datum
  | bool b => some (.truth b)
  | int n => some (.number n.toInt)
  | real _ => none

/-- The interpretation that gives the constants the exact values of their scalars. -/
def Assignment.exact (env : Assignment) : Interpretation where
  value name := ((env.get? name).bind Scalar.datum?).getD (.number 0)
  -- no integer term divides
  divide _ _ := 0

theorem Assignment.exact_value {env : Assignment} {name : String} {v : Scalar} {d : Datum}
    (hv : env.get? name = some v) (hd : v.datum? = some d) : env.exact.value name = d := by
  show ((env.get? name).bind Scalar.datum?).getD (.number 0) = d
  rw [hv, Option.bind_some, hd, Option.getD_some]

/-! ## Failures -/

/-- The errors that arise where scalars are combined. -/
def EvalError.IsLocal : EvalError → Prop
  | overflow => True
  | sortMismatch _ _ => True
  | unbound _ => False
  | divisionByZero => False
  | quantifier => False

/-- A computation that fails only where scalars are combined. -/
def FailsLocally {α : Type} (x : Except EvalError α) : Prop := ∀ e, x = .error e → e.IsLocal

namespace FailsLocally

variable {α β : Type}

theorem ok (a : α) : FailsLocally (.ok a) := by
  rintro e ⟨⟩

theorem error {e : EvalError} (h : e.IsLocal) : FailsLocally (.error e : Except EvalError α) := by
  rintro _ ⟨⟩
  exact h

theorem bind {x : Except EvalError α} {f : α → Except EvalError β} (hx : FailsLocally x)
    (hf : ∀ a, FailsLocally (f a)) : FailsLocally (x >>= f) := by
  cases x with
  | error e => exact .error (hx e rfl)
  | ok a => exact hf a

end FailsLocally

namespace Scalar

theorem truth_failsLocally (v : Scalar) : FailsLocally v.truth := by
  cases v with
  | bool b => exact .ok b
  | int n | real x => exact .error trivial

theorem number_failsLocally (v : Scalar) : FailsLocally v.number := by
  cases v with
  | bool b => exact .error trivial
  | int n | real x => exact .ok _

theorem negated_failsLocally (v : Scalar) : FailsLocally v.negated := by
  cases v with
  | bool b => exact .error trivial
  | int n =>
    rw [negated]
    split
    · exact .ok _
    · exact .error trivial
  | real x => exact .ok _

theorem equal_failsLocally (v w : Scalar) : FailsLocally (v.equal w) := by
  unfold equal
  split
  · exact .ok _
  · exact .ok _
  · exact v.number_failsLocally.bind fun x => w.number_failsLocally.bind fun y => .ok _

end Scalar

theorem Arith.apply_failsLocally (op : Arith) (v w : Scalar) : FailsLocally (op.apply v w) := by
  unfold apply
  split
  · split
    · exact .ok _
    · exact .error trivial
  · exact v.number_failsLocally.bind fun x => w.number_failsLocally.bind fun y => .ok _

namespace Term

variable {env : Assignment} {t a b : Term}

theorem evalJunction_failsLocally {j : Junction} {ts : List Term} (h : ∀ t ∈ ts, FailsLocally (t.eval env)) :
    FailsLocally (evalJunction env j ts) := by
  induction ts with
  | nil =>
    rw [evalJunction_nil]
    exact .ok _
  | cons t ts ih =>
    rw [List.forall_mem_cons] at h
    rw [evalJunction]
    refine h.1.bind fun v => v.truth_failsLocally.bind fun p => ?_
    split
    · exact ih h.2
    · exact .ok _

/-- An integer term has all the scalars that it needs, and nothing in it is beyond evaluation. -/
theorem eval_failsLocally (ht : t.Everywhere (Integral env)) : FailsLocally (t.eval env) := by
  induction t with
  | const name s =>
    obtain ⟨-, v, hv, -⟩ := everywhere_const.1 ht
    rw [eval, hv]
    exact .ok v
  | bool b | int n =>
    rw [eval]
    exact .ok _
  | real q => exact (everywhere_real.1 ht).elim
  | arith op a b iha ihb =>
    obtain ⟨-, ha, hb⟩ := everywhere_arith.1 ht
    rw [eval]
    exact (iha ha).bind fun v => (ihb hb).bind fun w => op.apply_failsLocally v w
  | div a b => exact (everywhere_div.1 ht).1.elim
  | neg a ih =>
    rw [eval]
    exact (ih (everywhere_neg.1 ht).2).bind Scalar.negated_failsLocally
  | ite c a b ihc iha ihb =>
    obtain ⟨-, hc, ha, hb⟩ := everywhere_ite.1 ht
    rw [eval]
    refine (ihc hc).bind fun v => v.truth_failsLocally.bind fun p => ?_
    split
    · exact iha ha
    · exact ihb hb
  | eq a b iha ihb =>
    obtain ⟨-, ha, hb⟩ := everywhere_eq.1 ht
    rw [eval]
    exact (iha ha).bind fun v => (ihb hb).bind fun w => (v.equal_failsLocally w).bind fun p => .ok _
  | compare op a b iha ihb =>
    obtain ⟨-, ha, hb⟩ := everywhere_compare.1 ht
    rw [eval]
    exact (iha ha).bind fun v => v.number_failsLocally.bind fun x => (ihb hb).bind fun w =>
      w.number_failsLocally.bind fun y => .ok _
  | junction j ts ih =>
    rw [eval_junction]
    exact evalJunction_failsLocally fun t hmem => ih t hmem ((everywhere_junction.1 ht).2 t hmem)
  | not a ih =>
    rw [eval]
    exact (ih (everywhere_not.1 ht).2).bind fun v => v.truth_failsLocally.bind fun p => .ok _
  | implies a b iha ihb =>
    obtain ⟨-, ha, hb⟩ := everywhere_implies.1 ht
    rw [eval]
    refine (iha ha).bind fun v => v.truth_failsLocally.bind fun p => ?_
    split
    · exact (ihb hb).bind fun w => w.truth_failsLocally.bind fun q => .ok _
    · exact .ok _
  | quantified q binders body => exact (everywhere_quantified.1 ht).1.elim

/-- An integer term has no quantifier, and its assignment supplies it. -/
theorem supplies_of_integral (ht : t.Everywhere (Integral env)) :
    t.quantifierFree = true ∧ Supplies env (t.freeOccurrences []) := by
  induction t with
  | const name s =>
    obtain ⟨-, v, hv, rfl⟩ := everywhere_const.1 ht
    refine ⟨rfl, ?_⟩
    rintro o ho
    obtain rfl : o = (name, v.sort) := by simpa [freeOccurrences] using ho
    exact ⟨v, hv, Iff.rfl⟩
  | bool b | int n => exact ⟨rfl, List.forall_mem_nil _⟩
  | real q => exact (everywhere_real.1 ht).elim
  | div a b => exact (everywhere_div.1 ht).1.elim
  | arith op a b iha ihb | eq a b iha ihb | compare op a b iha ihb | implies a b iha ihb =>
    simp only [everywhere_arith, everywhere_eq, everywhere_compare, everywhere_implies] at ht
    rw [quantifierFree, freeOccurrences, supplies_append, Bool.and_eq_true]
    exact ⟨⟨(iha ht.2.1).1, (ihb ht.2.2).1⟩, (iha ht.2.1).2, (ihb ht.2.2).2⟩
  | neg a ih => exact ih (everywhere_neg.1 ht).2
  | not a ih => exact ih (everywhere_not.1 ht).2
  | ite c a b ihc iha ihb =>
    obtain ⟨-, hc, ha, hb⟩ := everywhere_ite.1 ht
    rw [quantifierFree, freeOccurrences, supplies_append, supplies_append, Bool.and_eq_true, Bool.and_eq_true]
    exact ⟨⟨⟨(ihc hc).1, (iha ha).1⟩, (ihb hb).1⟩, ⟨(ihc hc).2, (iha ha).2⟩, (ihb hb).2⟩
  | junction j ts ih =>
    have hts := (everywhere_junction.1 ht).2
    rw [quantifierFree, quantifierFreeAll_iff, freeOccurrences, freeOccurrencesAll_eq]
    refine ⟨fun t hmem => (ih t hmem (hts t hmem)).1, fun o ho => ?_⟩
    obtain ⟨t, hmem, ho⟩ := List.mem_flatMap.1 ho
    exact (ih t hmem (hts t hmem)).2 o ho
  | quantified q binders body => exact (everywhere_quantified.1 ht).1.elim

/-- A well-sorted integer term fails by overflow only. -/
theorem eval_error_cases (ht : t.Everywhere (Integral env)) {e : EvalError} (he : t.eval env = .error e) :
    e = .overflow ∨ (∃ expected found, e = .sortMismatch expected found) ∧ ¬ t.WellSorted .free := by
  have hlocal := eval_failsLocally ht e he
  cases e with
  | overflow => exact .inl rfl
  | sortMismatch expected found =>
    refine .inr ⟨⟨expected, found, rfl⟩, fun hsorted => ?_⟩
    obtain ⟨hq, hs⟩ := supplies_of_integral ht
    have hsafe := hsorted.fits.evalSafe hq hs
    rw [EvalSafe, he] at hsafe
    rcases hsafe with h | h
    · cases h
    · cases h
  | unbound name | divisionByZero | quantifier => exact hlocal.elim

end Term

/-! ## Values -/

theorem toInt_of_int64?_eq_some {n : Int} {k : Int64} (h : int64? n = some k) : k.toInt = n := by
  unfold int64? at h
  split at h
  · rename_i hrange
    cases h
    have hmax : Int64.maxValue.toInt < 2 ^ 63 := by decide
    exact Int64.toInt_ofInt_of_le hrange.1 (hrange.2.trans_lt hmax)
  · cases h

namespace Scalar

variable {v w u : Scalar} {d e : Datum}

/-- A scalar that is not a double has an exact value of its sort. -/
theorem exists_datum (h : v.sort ≠ .real) : ∃ d, v.datum? = some d ∧ d.asSort v.sort = d := by
  cases v with
  | bool b => exact ⟨_, rfl, rfl⟩
  | int n => exact ⟨_, rfl, rfl⟩
  | real x => exact absurd rfl h

theorem number_exact (hv : v.datum? = some d) {x : Float} (h : v.number = .ok x) :
    ∃ n : Int64, v = .int n ∧ d = .number n.toInt ∧ x = floatOfInt n.toInt := by
  cases v with
  | bool b => cases h
  | real x => cases hv
  | int n =>
    cases hv
    cases h
    exact ⟨n, rfl, rfl, rfl⟩

theorem negated_exact (hv : v.datum? = some d) (h : v.negated = .ok u) : u.datum? = some (.number (-d.amount)) := by
  cases v with
  | bool b => cases h
  | real x => cases hv
  | int n =>
    cases hv
    rw [negated] at h
    split at h
    · rename_i k hk
      cases h
      rw [datum?, toInt_of_int64?_eq_some hk, Int.cast_neg]
      rfl
    · cases h

theorem equal_exact (hv : v.datum? = some d) (hw : w.datum? = some e) {p : Bool} (h : v.equal w = .ok p) :
    p = decide (d = e) := by
  cases v with
  | real x => cases hv
  | bool b =>
    cases w with
    | real y => cases hw
    | int n => cases h
    | bool c =>
      cases hv
      cases hw
      cases h
      rw [Bool.eq_iff_iff]
      simp
  | int m =>
    cases w with
    | real y => cases hw
    | bool c => cases h
    | int n =>
      cases hv
      cases hw
      cases h
      rw [Bool.eq_iff_iff]
      simp [Int64.toInt_inj]

end Scalar

theorem Arith.apply_exact {op : Arith} {v w u : Scalar} {d e : Datum} (hv : v.datum? = some d)
    (hw : w.datum? = some e) (h : op.apply v w = .ok u) : u.datum? = some (.number (op.onRats d.amount e.amount)) := by
  cases v with
  | real x => cases hv
  | bool b => cases h
  | int m =>
    cases w with
    | real y => cases hw
    | bool c => cases h
    | int n =>
      cases hv
      cases hw
      rw [apply] at h
      split at h
      · rename_i k hk
        cases h
        rw [Scalar.datum?, toInt_of_int64?_eq_some hk]
        cases op <;> simp [onInts, onRats]
      · cases h

theorem Comparison.onFloats_of_apart {m n : Int64} (op : Comparison) (h : Apart m n) :
    op.onFloats (floatOfInt m.toInt) (floatOfInt n.toInt) = op.onRats m.toInt n.toInt := by
  have hlt : ∀ {m n : Int64}, Apart m n → (floatOfInt m.toInt < floatOfInt n.toInt ↔ (m.toInt : Rat) < n.toInt) := by
    intro m n h
    rw [h.floatOfInt_lt_iff, Int.cast_lt]
  have hle : ∀ {m n : Int64}, Apart m n → (floatOfInt m.toInt ≤ floatOfInt n.toInt ↔ (m.toInt : Rat) ≤ n.toInt) := by
    intro m n h
    rw [h.floatOfInt_le_iff, Int.cast_le]
  cases op with
  | lt => exact decide_eq_decide.2 (hlt h)
  | le => exact decide_eq_decide.2 (hle h)
  | gt => exact decide_eq_decide.2 (hlt h.symm)
  | ge => exact decide_eq_decide.2 (hle h.symm)

namespace Term

variable {env : Assignment} {t a b : Term}

/-- A comparison of integers that doubles tell apart. -/
def ComparesApart (env : Assignment) : Term → Prop
  | compare _ a b => ∀ m n, a.eval env = .ok (.int m) → b.eval env = .ok (.int n) → Apart m n
  | _ => True

/-- The term has its exact value, if it has one. -/
def Exact (env : Assignment) (t : Term) : Prop := ∀ v, t.eval env = .ok v → v.datum? = some (t.meaning env.exact)

namespace Exact

/-- An operand with a truth value means that truth value. -/
theorem truth (h : t.Exact env) {p : Bool} (hp : t.eval env = .ok (.bool p)) : t.meaning env.exact = .truth p :=
  (Option.some_inj.1 (h _ hp)).symm

theorem const {name : String} {v : Scalar} (hv : env.get? name = some v) (hsort : v.sort ≠ .real) :
    (Term.const name v.sort).Exact env := by
  intro w hw
  rw [eval, hv] at hw
  cases hw
  obtain ⟨d, hd, hread⟩ := Scalar.exists_datum hsort
  rw [meaning, Assignment.exact_value hv hd, hread]
  exact hd

theorem bool (b : Bool) : (Term.bool b).Exact env := by
  intro v hv
  rw [eval] at hv
  cases hv
  rfl

theorem int {n : Int} (hn : (int64? n).isSome = true) : (Term.int n).Exact env := by
  intro v hv
  obtain ⟨k, hk⟩ := Option.isSome_iff_exists.1 hn
  rw [eval, intValue, hk] at hv
  cases hv
  rw [Scalar.datum?, toInt_of_int64?_eq_some hk]
  rfl

theorem arith (op : Arith) (ha : a.Exact env) (hb : b.Exact env) : (Term.arith op a b).Exact env := by
  intro v hv
  rw [eval] at hv
  obtain ⟨x, hx, hv⟩ := bind_eq_ok hv
  obtain ⟨y, hy, hv⟩ := bind_eq_ok hv
  exact Arith.apply_exact (ha x hx) (hb y hy) hv

theorem neg (ha : a.Exact env) : (Term.neg a).Exact env := by
  intro v hv
  rw [eval] at hv
  obtain ⟨x, hx, hv⟩ := bind_eq_ok hv
  exact Scalar.negated_exact (ha x hx) hv

theorem ite {c : Term} (hc : c.Exact env) (ha : a.Exact env) (hb : b.Exact env) : (Term.ite c a b).Exact env := by
  intro v hv
  obtain ⟨p, hp, hbranch⟩ := eval_ite_eq_ok hv
  rw [meaning, hc.truth hp]
  cases p with
  | true => exact ha v hbranch
  | false => exact hb v hbranch

theorem eq (ha : a.Exact env) (hb : b.Exact env) : (Term.eq a b).Exact env := by
  intro v hv
  rw [eval] at hv
  obtain ⟨x, hx, hv⟩ := bind_eq_ok hv
  obtain ⟨y, hy, hv⟩ := bind_eq_ok hv
  obtain ⟨p, hp, hv⟩ := bind_eq_ok hv
  cases hv
  rw [Scalar.equal_exact (ha x hx) (hb y hy) hp, meaning, Scalar.datum?]

/-- The only rule that needs a condition: numbers are compared in doubles. -/
theorem compare {op : Comparison} (ha : a.Exact env) (hb : b.Exact env)
    (hapart : (Term.compare op a b).ComparesApart env) : (Term.compare op a b).Exact env := by
  intro v hv
  rw [eval] at hv
  obtain ⟨x, hx, hv⟩ := bind_eq_ok hv
  obtain ⟨x', hx', hv⟩ := bind_eq_ok hv
  obtain ⟨y, hy, hv⟩ := bind_eq_ok hv
  obtain ⟨y', hy', hv⟩ := bind_eq_ok hv
  cases hv
  obtain ⟨m, rfl, hm, rfl⟩ := Scalar.number_exact (ha x hx) hx'
  obtain ⟨n, rfl, hn, rfl⟩ := Scalar.number_exact (hb y hy) hy'
  rw [meaning, hm, hn, Scalar.datum?, op.onFloats_of_apart (hapart m n hx hy)]
  rfl

theorem junction {j : Junction} {ts : List Term} (h : ∀ t ∈ ts, t.Exact env) : (Term.junction j ts).Exact env := by
  intro v hv
  rw [eval_junction] at hv
  rw [meaning]
  induction ts with
  | nil =>
    rw [evalJunction_nil] at hv
    cases hv
    rfl
  | cons t ts ih =>
    rw [List.forall_mem_cons] at h
    obtain ⟨p, hp, hrest⟩ := evalJunction_cons_eq_ok hv
    rw [meaningAll, h.1.truth hp, Datum.isTrue_truth]
    split at hrest
    · rename_i hunit
      rw [hunit, Junction.unit_combine]
      exact ih h.2 hrest
    · rename_i hunit
      cases hrest
      rw [Bool.eq_not.2 hunit, Junction.not_unit_combine]
      rfl

theorem not (ha : a.Exact env) : (Term.not a).Exact env := by
  intro v hv
  obtain ⟨p, hp, rfl⟩ := eval_not_eq_ok hv
  rw [meaning, ha.truth hp]
  rfl

theorem implies (ha : a.Exact env) (hb : b.Exact env) : (Term.implies a b).Exact env := by
  intro v hv
  rcases eval_implies_eq_ok hv with ⟨hp, rfl⟩ | ⟨hp, q, hq, rfl⟩
  · rw [meaning, ha.truth hp]
    rfl
  · rw [meaning, ha.truth hp, hb.truth hq]
    rfl

end Exact

theorem eval_exact (ht : t.Everywhere (Integral env)) (hc : t.Everywhere (ComparesApart env)) : t.Exact env := by
  induction t with
  | const name s =>
    obtain ⟨hsort, v, hv, rfl⟩ := everywhere_const.1 ht
    exact .const hv hsort
  | bool b => exact .bool b
  | int n => exact .int (everywhere_int.1 ht)
  | real q => exact (everywhere_real.1 ht).elim
  | arith op a b iha ihb =>
    obtain ⟨-, ha, hb⟩ := everywhere_arith.1 ht
    obtain ⟨-, hca, hcb⟩ := everywhere_arith.1 hc
    exact .arith op (iha ha hca) (ihb hb hcb)
  | div a b => exact (everywhere_div.1 ht).1.elim
  | neg a ih => exact .neg (ih (everywhere_neg.1 ht).2 (everywhere_neg.1 hc).2)
  | ite p a b ihp iha ihb =>
    obtain ⟨-, hp, ha, hb⟩ := everywhere_ite.1 ht
    obtain ⟨-, hcp, hca, hcb⟩ := everywhere_ite.1 hc
    exact .ite (ihp hp hcp) (iha ha hca) (ihb hb hcb)
  | eq a b iha ihb =>
    obtain ⟨-, ha, hb⟩ := everywhere_eq.1 ht
    obtain ⟨-, hca, hcb⟩ := everywhere_eq.1 hc
    exact .eq (iha ha hca) (ihb hb hcb)
  | compare op a b iha ihb =>
    obtain ⟨-, ha, hb⟩ := everywhere_compare.1 ht
    obtain ⟨hapart, hca, hcb⟩ := everywhere_compare.1 hc
    exact .compare (iha ha hca) (ihb hb hcb) hapart
  | junction j ts ih =>
    have hts := (everywhere_junction.1 ht).2
    have hcts := (everywhere_junction.1 hc).2
    exact .junction fun t hmem => ih t hmem (hts t hmem) (hcts t hmem)
  | not a ih => exact .not (ih (everywhere_not.1 ht).2 (everywhere_not.1 hc).2)
  | implies a b iha ihb =>
    obtain ⟨-, ha, hb⟩ := everywhere_implies.1 ht
    obtain ⟨-, hca, hcb⟩ := everywhere_implies.1 hc
    exact .implies (iha ha hca) (ihb hb hcb)
  | quantified q binders body => exact (everywhere_quantified.1 ht).1.elim

theorem eval_compare_of_int {m n : Int64} (op : Comparison) (ha : a.eval env = .ok (.int m))
    (hb : b.eval env = .ok (.int n)) :
    (compare op a b).eval env = .ok (.bool (op.onFloats (floatOfInt m.toInt) (floatOfInt n.toInt))) := by
  rw [eval, ha, hb]
  rfl

theorem eval_eq_of_int {m n : Int64} (ha : a.eval env = .ok (.int m)) (hb : b.eval env = .ok (.int n)) :
    (eq a b).eval env = .ok (.bool (m == n)) := by
  rw [eval, ha, hb]
  rfl

/-- "Less" and "greater" hold only of integers that doubles tell apart, so that one of "less", "equal"
and "greater" holds exactly if the integers are told apart. Two of them never do. -/
theorem eval_order {m n : Int64} (ha : a.eval env = .ok (.int m)) (hb : b.eval env = .ok (.int n)) :
    ∃ less same greater : Bool,
      (a.lt b).eval env = .ok (.bool less) ∧ (a.eq b).eval env = .ok (.bool same) ∧
      (a.gt b).eval env = .ok (.bool greater) ∧ (less = true ↔ m.toInt < n.toInt ∧ Apart m n) ∧
      (same = true ↔ m.toInt = n.toInt) ∧ (greater = true ↔ n.toInt < m.toInt ∧ Apart m n) ∧
      ([less, same, greater].count true = 1 ↔ Apart m n) := by
  refine ⟨_, _, _, eval_compare_of_int .lt ha hb, eval_eq_of_int ha hb, eval_compare_of_int .gt ha hb, ?_⟩
  have hless : Comparison.lt.onFloats (floatOfInt m.toInt) (floatOfInt n.toInt) = true ↔
      m.toInt < n.toInt ∧ Apart m n := decide_eq_true_iff.trans Apart.floatOfInt_lt_iff_and
  have hsame : (m == n) = true ↔ m.toInt = n.toInt := beq_iff_eq.trans Int64.toInt_inj.symm
  have hgreater : Comparison.gt.onFloats (floatOfInt m.toInt) (floatOfInt n.toInt) = true ↔
      n.toInt < m.toInt ∧ Apart m n :=
    decide_eq_true_iff.trans (Apart.floatOfInt_lt_iff_and.trans (and_congr_right' ⟨Apart.symm, Apart.symm⟩))
  refine ⟨hless, hsame, hgreater, ?_⟩
  generalize Comparison.lt.onFloats _ _ = less, (m == n) = same, Comparison.gt.onFloats _ _ = greater at *
  by_cases hapart : Apart m n
  · -- exactly one of three holds of the integers
    simp only [hapart, and_true] at hless hgreater ⊢
    cases less <;> cases same <;> cases greater <;> simp at hless hsame hgreater ⊢ <;> omega
  · have hne : m.toInt ≠ n.toInt := fun h => hapart (.inl (Int64.toInt_inj.1 h))
    simp only [hapart, and_false, iff_false, Bool.not_eq_true] at hless hgreater ⊢
    rw [hless, hgreater, Bool.eq_false_iff.2 (mt hsame.1 hne)]
    decide

/-- An integer term has its exact value if doubles tell the integers apart that it compares, and it
fails only by overflow or where its sorts do not fit. -/
theorem integer_values_exact (ht : t.Everywhere (Integral env)) :
    (t.Everywhere (ComparesApart env) → ∀ v, t.eval env = .ok v → v.datum? = some (t.meaning env.exact)) ∧
    (∀ e, t.eval env = .error e →
      e = .overflow ∨ (∃ expected found, e = .sortMismatch expected found) ∧ ¬ t.WellSorted .free) ∧
    -- the order of two integers
    (∀ (a b : Term) (m n : Int64), a.eval env = .ok (.int m) → b.eval env = .ok (.int n) →
      ∃ less same greater : Bool,
      (a.lt b).eval env = .ok (.bool less) ∧ (a.eq b).eval env = .ok (.bool same) ∧
      (a.gt b).eval env = .ok (.bool greater) ∧ (less = true ↔ m.toInt < n.toInt ∧ Apart m n) ∧
      (same = true ↔ m.toInt = n.toInt) ∧ (greater = true ↔ n.toInt < m.toInt ∧ Apart m n) ∧
      ([less, same, greater].count true = 1 ↔ Apart m n)) ∧
    -- integers that doubles tell apart
    ∀ m n : Int64, m.toInt.natAbs ≤ 2 ^ 53 ∧ n.toInt.natAbs ≤ 2 ^ 53 ∨ 1024 < |m.toInt - n.toInt| → Apart m n := by
  refine ⟨eval_exact ht, fun e => eval_error_cases ht, fun a b m n => eval_order, fun m n h => ?_⟩
  rcases h with ⟨hm, hn⟩ | hfar
  · exact Apart.of_natAbs_le hm hn
  · exact Apart.of_lt_abs_sub hfar

/-- Two integers of more than 53 bits that are far enough from each other. -/
theorem integer_values_exact_far_apart :
    let env : Assignment := .ofList [("x", .int 4611686018427387904), ("y", .int 4611686018427389952), ("p", .bool true)]
    let x : Term := .const "x" .int
    let y : Term := .const "y" .int
    let t : Term := .and [x.lt y, .eq (.arith .add x (.int 1)) (.int 4611686018427387905),
      .implies (.const "p" .bool) (.not (x.gt y))]
    t.Everywhere (Integral env) ∧ t.Everywhere (ComparesApart env) ∧ t.eval env = .ok (.bool true) ∧
      t.meaning env.exact = .truth true := by
  intro env x y t
  have hx : env.get? "x" = some (.int 4611686018427387904) := rfl
  have hy : env.get? "y" = some (.int 4611686018427389952) := rfl
  have hp : env.get? "p" = some (.bool true) := rfl
  have hlits : (int64? 1).isSome = true ∧ (int64? 4611686018427387905).isSome = true := by decide
  have hfar : ∀ m n, x.eval env = .ok (.int m) → y.eval env = .ok (.int n) → Apart m n := by
    intro m n hm hn
    simp only [x, y, eval, hx, hy] at hm hn
    cases hm
    cases hn
    exact Apart.of_lt_abs_sub (by decide)
  have ht : t.Everywhere (Integral env) := by
    simp [t, x, y, Term.and, Integral, hx, hy, hp, hlits, Scalar.sort, Term.lt, Term.gt]
  have hc : t.Everywhere (ComparesApart env) := by
    simp only [t, x, y, Term.and, Term.lt, Term.gt, everywhere_junction, List.forall_mem_cons, everywhere_compare,
      everywhere_eq, everywhere_arith, everywhere_implies, everywhere_not, everywhere_const, everywhere_int]
    exact ⟨trivial, ⟨hfar, trivial, trivial⟩, ⟨trivial, ⟨trivial, trivial, trivial⟩, trivial⟩,
      ⟨trivial, trivial, trivial, hfar, trivial, trivial⟩, List.forall_mem_nil _⟩
  have hholds : t.holds env = .ok true := by decide +kernel
  obtain ⟨v, hv, htrue⟩ := bind_eq_ok hholds
  obtain rfl := Scalar.truth_eq_ok_iff.1 htrue
  exact ⟨ht, hc, hv, (Option.some_inj.1 ((integer_values_exact ht).1 hc _ hv)).symm⟩

/-- The first integer of more than 53 bits is taken for its predecessor by the order, but not by
equality: none of the three relations holds. -/
theorem order_lost_past_53_bits :
    let m : Term := .int 9007199254740992
    let n : Term := .int 9007199254740993
    (∀ c ∈ [m.lt n, m.eq n, m.gt n], c.Everywhere (Integral .empty) ∧ c.holds .empty = .ok false) ∧
      (m.lt n).meaning (Assignment.exact .empty) = .truth true := by
  intro m n
  have hlits : (int64? 9007199254740992).isSome = true ∧ (int64? 9007199254740993).isSome = true := by decide
  constructor
  · simp only [List.forall_mem_cons, Term.lt, Term.gt, everywhere_compare, everywhere_eq, everywhere_int, m, n]
    refine ⟨⟨⟨trivial, hlits⟩, ?_⟩, ⟨⟨trivial, hlits⟩, ?_⟩, ⟨⟨trivial, hlits⟩, ?_⟩, List.forall_mem_nil _⟩
    · decide +kernel
    · decide +kernel
    · decide +kernel
  · show Datum.truth (decide ((9007199254740992 : Rat) < 9007199254740993)) = _
    norm_num

end Term

end RoadPolicy
