/-
The meaning of terms. An interpretation gives every name a truth value or an exact number and fixes
what a quotient is. Numbers are rational and never rounded, and a quantifier ranges over all values
of the sort of its variable. This is what a solver is asked about; evaluation, in contrast, computes
in machine words and doubles.
-/
import Mathlib.Tactic
import RoadPolicy.Formula.Term

namespace RoadPolicy

/-! ## Values and interpretations -/

/-- A value: a truth value or an exact number. -/
inductive Datum where
  | truth (b : Bool)
  | number (q : Rat)
deriving DecidableEq

namespace Datum

/-- The truth value; no number is true. -/
def isTrue : Datum → Bool
  | truth b => b
  | number _ => false

/-- The number; a truth value counts as zero. -/
def amount : Datum → Rat
  | truth _ => 0
  | number q => q

/-- The value read at a sort: a value of the other kind is read as false or as zero. -/
def asSort (d : Datum) : TermSort → Datum
  | .bool => truth d.isTrue
  | .int => number d.amount
  | .real => number d.amount

/-- The values of a sort. -/
def IsOf : Datum → TermSort → Prop
  | truth _, .bool => True
  | number q, .int => q.isInt = true
  | number _, .real => True
  | truth _, .int => False
  | truth _, .real => False
  | number _, .bool => False

@[simp] theorem isTrue_truth (b : Bool) : (truth b).isTrue = b := rfl

@[simp] theorem amount_number (q : Rat) : (number q).amount = q := rfl

/-- Every sort has a value. -/
theorem exists_isOf : ∀ s : TermSort, ∃ d : Datum, d.IsOf s
  | .bool => ⟨truth true, trivial⟩
  | .int => ⟨number 0, rfl⟩
  | .real => ⟨number 0, trivial⟩

theorem isOf_real_iff {d : Datum} : d.IsOf .real ↔ ∃ q, d = number q := by
  cases d with
  | truth b => exact ⟨False.elim, fun ⟨_, h⟩ => nomatch h⟩
  | number q => exact ⟨fun _ => ⟨q, rfl⟩, fun _ => trivial⟩

end Datum

/-- A value for every name, and a total division. -/
structure Interpretation where
  value : String → Datum
  divide : Rat → Rat → Rat

namespace Interpretation

/-- The interpretation with one name given another value. -/
def set (I : Interpretation) (name : String) (d : Datum) : Interpretation :=
  { I with value := fun n => if n = name then d else I.value n }

@[simp] theorem set_divide (I : Interpretation) (name : String) (d : Datum) : (I.set name d).divide = I.divide := rfl

@[simp] theorem set_value_self (I : Interpretation) (name : String) (d : Datum) : (I.set name d).value name = d :=
  if_pos rfl

theorem set_value_of_ne (I : Interpretation) {name other : String} (d : Datum) (h : other ≠ name) :
    (I.set name d).value other = I.value other := if_neg h

/-- A quantifier over several variables: each in turn takes all values of its sort. -/
def Quantify (q : Quantifier) (P : Interpretation → Prop) : List Binder → Interpretation → Prop
  | [], I => P I
  | b :: bs, I =>
    match q with
    | .all => ∀ d : Datum, d.IsOf b.sort → Quantify q P bs (I.set b.name d)
    | .some => ∃ d : Datum, d.IsOf b.sort ∧ Quantify q P bs (I.set b.name d)

end Interpretation

/-! ## Meaning -/

/-- Arithmetic on exact numbers. -/
def Arith.onRats : Arith → Rat → Rat → Rat
  | add, x, y => x + y
  | sub, x, y => x - y
  | mul, x, y => x * y

/-- Comparison of exact numbers. -/
def Comparison.onRats : Comparison → Rat → Rat → Bool
  | lt, x, y => decide (x < y)
  | le, x, y => decide (x ≤ y)
  | gt, x, y => decide (x > y)
  | ge, x, y => decide (x ≥ y)

/-- The junction of two truth values. -/
def Junction.combine : Junction → Bool → Bool → Bool
  | conj, p, q => p && q
  | disj, p, q => p || q

namespace Term

section

open Classical

mutual

/-- What a term denotes. -/
noncomputable def meaning : Term → Interpretation → Datum
  | const name s, I => (I.value name).asSort s
  | bool b, _ => .truth b
  | int n, _ => .number n
  | real q, _ => .number q
  | arith op a b, I => .number (op.onRats (a.meaning I).amount (b.meaning I).amount)
  | div a b, I => .number (I.divide (a.meaning I).amount (b.meaning I).amount)
  | neg a, I => .number (-(a.meaning I).amount)
  | ite c a b, I => if (c.meaning I).isTrue then a.meaning I else b.meaning I
  | eq a b, I => .truth (decide (a.meaning I = b.meaning I))
  | compare op a b, I => .truth (op.onRats (a.meaning I).amount (b.meaning I).amount)
  | junction j ts, I => .truth (meaningAll j ts I)
  | not a, I => .truth !(a.meaning I).isTrue
  | implies a b, I => .truth (!(a.meaning I).isTrue || (b.meaning I).isTrue)
  | quantified q binders body, I =>
    .truth (decide (Interpretation.Quantify q (fun J => (body.meaning J).isTrue = true) binders I))

/-- What a junction of formulas denotes. -/
noncomputable def meaningAll (j : Junction) : List Term → Interpretation → Bool
  | [], _ => j.unit
  | t :: ts, I => j.combine (t.meaning I).isTrue (meaningAll j ts I)

end

end

/-- Induction over terms: the operands of a junction are taken all at once. -/
@[induction_eliminator]
theorem inductionOn {motive : Term → Prop}
    (const : ∀ name s, motive (const name s))
    (bool : ∀ b, motive (bool b))
    (int : ∀ n, motive (int n))
    (real : ∀ q, motive (real q))
    (arith : ∀ op a b, motive a → motive b → motive (arith op a b))
    (div : ∀ a b, motive a → motive b → motive (div a b))
    (neg : ∀ a, motive a → motive (neg a))
    (ite : ∀ c a b, motive c → motive a → motive b → motive (ite c a b))
    (eq : ∀ a b, motive a → motive b → motive (eq a b))
    (compare : ∀ op a b, motive a → motive b → motive (compare op a b))
    (junction : ∀ j ts, (∀ t ∈ ts, motive t) → motive (junction j ts))
    (not : ∀ a, motive a → motive (not a))
    (implies : ∀ a b, motive a → motive b → motive (implies a b))
    (quantified : ∀ q binders body, motive body → motive (quantified q binders body)) :
    ∀ t, motive t :=
  @Term.rec motive (fun ts => ∀ t ∈ ts, motive t) const bool int real arith div neg ite eq
    compare junction not implies quantified
    (fun _ h => nomatch h)
    (fun _ _ ht hts u hu => (List.mem_cons.1 hu).elim (fun e => e ▸ ht) (hts u))

end Term

namespace Interpretation

/-- The formula is true. -/
def Satisfies (I : Interpretation) (t : Term) : Prop := (t.meaning I).isTrue = true

/-- The number that a term denotes. -/
noncomputable def amount (I : Interpretation) (t : Term) : Rat := (t.meaning I).amount

/-! ## Formulas and numbers -/

section

variable (I : Interpretation) (a b : Term)

@[simp] theorem amount_int (n : Int) : I.amount (.int n) = n := rfl

@[simp] theorem amount_real (q : Rat) : I.amount (.real q) = q := rfl

@[simp] theorem amount_add : I.amount (a + b) = I.amount a + I.amount b := rfl

@[simp] theorem amount_sub : I.amount (a - b) = I.amount a - I.amount b := rfl

@[simp] theorem amount_mul : I.amount (a * b) = I.amount a * I.amount b := rfl

@[simp] theorem amount_div : I.amount (a / b) = I.divide (I.amount a) (I.amount b) := rfl

@[simp] theorem amount_neg : I.amount (-a) = -I.amount a := rfl

@[simp] theorem amount_square : I.amount a.square = I.amount a * I.amount a := rfl

@[simp] theorem satisfies_lt : I.Satisfies (a.lt b) ↔ I.amount a < I.amount b := decide_eq_true_iff

@[simp] theorem satisfies_le : I.Satisfies (a.le b) ↔ I.amount a ≤ I.amount b := decide_eq_true_iff

@[simp] theorem satisfies_gt : I.Satisfies (a.gt b) ↔ I.amount b < I.amount a := decide_eq_true_iff

@[simp] theorem satisfies_ge : I.Satisfies (a.ge b) ↔ I.amount b ≤ I.amount a := decide_eq_true_iff

theorem satisfies_eq : I.Satisfies (.eq a b) ↔ a.meaning I = b.meaning I := by
  simp [Satisfies, Term.meaning]

@[simp] theorem satisfies_not : I.Satisfies a.not ↔ ¬ I.Satisfies a := by
  simp [Satisfies, Term.meaning]

@[simp] theorem satisfies_implies : I.Satisfies (.implies a b) ↔ (I.Satisfies a → I.Satisfies b) := by
  simp only [Satisfies, Term.meaning, Datum.isTrue_truth, Bool.or_eq_true, Bool.not_eq_true']
  cases (a.meaning I).isTrue <;> simp

@[simp] theorem satisfies_and (ts : List Term) : I.Satisfies (.and ts) ↔ ∀ t ∈ ts, I.Satisfies t := by
  show Term.meaningAll .conj ts I = true ↔ _
  induction ts with
  | nil => simp [Term.meaningAll, Junction.unit]
  | cons t ts ih => simp [Term.meaningAll, Junction.combine, ih, Satisfies]

@[simp] theorem satisfies_or (ts : List Term) : I.Satisfies (.or ts) ↔ ∃ t ∈ ts, I.Satisfies t := by
  show Term.meaningAll .disj ts I = true ↔ _
  induction ts with
  | nil => simp [Term.meaningAll, Junction.unit]
  | cons t ts ih => simp [Term.meaningAll, Junction.combine, ih, Satisfies]

theorem satisfies_and_pair : I.Satisfies (.and [a, b]) ↔ I.Satisfies a ∧ I.Satisfies b := by simp

theorem satisfies_or_pair : I.Satisfies (.or [a, b]) ↔ I.Satisfies a ∨ I.Satisfies b := by simp

theorem satisfies_quantified (q : Quantifier) (binders : List Binder) (body : Term) :
    I.Satisfies (.quantified q binders body) ↔ Quantify q (fun J => J.Satisfies body) binders I := by
  simp [Satisfies, Term.meaning]

end

/-! ## Only free constants matter -/

/-- Both divide alike and give the same values to the names in a set. -/
def AgreeOn (S : String → Prop) (I J : Interpretation) : Prop :=
  I.divide = J.divide ∧ ∀ name, S name → I.value name = J.value name

theorem AgreeOn.set {S : String → Prop} {I J : Interpretation} (h : AgreeOn S I J) (name : String) (d : Datum) :
    AgreeOn (fun n => S n ∨ n = name) (I.set name d) (J.set name d) := by
  refine ⟨h.1, fun n hn => ?_⟩
  by_cases hname : n = name
  · subst hname; simp
  · rw [set_value_of_ne I d hname, set_value_of_ne J d hname]
    exact h.2 n (hn.resolve_right hname)

/-- Quantified statements agree if their bodies agree wherever the variables take the same values. -/
theorem quantify_congr (q : Quantifier) {P Q : Interpretation → Prop} :
    ∀ (binders : List Binder) (S : String → Prop) (I J : Interpretation), AgreeOn S I J →
      (∀ I' J', AgreeOn (fun n => S n ∨ n ∈ binders.map (·.name)) I' J' → (P I' ↔ Q J')) →
      (Quantify q P binders I ↔ Quantify q Q binders J)
  | [], S, I, J, h, hPQ => hPQ I J ⟨h.1, fun n hn => h.2 n (by simpa using hn)⟩
  | b :: binders, S, I, J, h, hPQ => by
    have ih : ∀ d, Quantify q P binders (I.set b.name d) ↔ Quantify q Q binders (J.set b.name d) :=
      fun d => quantify_congr q binders _ _ _ (h.set b.name d) fun I' J' h' =>
        hPQ I' J' ⟨h'.1, fun n hn => h'.2 n (by simpa [or_assoc] using hn)⟩
    cases q with
    | all => exact forall_congr' fun d => imp_congr_right fun _ => ih d
    | some => exact exists_congr fun d => and_congr_right fun _ => ih d

/-- A statement that does not depend on the variables needs no quantifier, since every sort has a
value. -/
theorem quantify_const (q : Quantifier) {P : Interpretation → Prop} {p : Prop} (h : ∀ J, P J ↔ p) :
    ∀ (binders : List Binder) (I : Interpretation), Quantify q P binders I ↔ p
  | [], I => h I
  | b :: binders, I => by
    obtain ⟨d, hd⟩ := Datum.exists_isOf b.sort
    cases q with
    | all =>
      constructor
      · intro hall; exact (quantify_const .all h binders _).1 (hall d hd)
      · intro hp d _; exact (quantify_const .all h binders _).2 hp
    | some =>
      constructor
      · rintro ⟨d, _, hex⟩; exact (quantify_const .some h binders _).1 hex
      · intro hp; exact ⟨d, hd, (quantify_const .some h binders _).2 hp⟩

end Interpretation

/-! ## Tables of constants -/

namespace Dict

variable {α : Type}

theorem contains_foldl_insert (name : String) : ∀ (l : List (String × α)) (d : Dict α),
    (l.foldl (fun d e => d.insert e.1 e.2) d).contains name = true ↔ d.contains name = true ∨ ∃ v, (name, v) ∈ l
  | [], d => by simp
  | (k, v) :: l, d => by
    rw [List.foldl_cons, contains_foldl_insert name l]
    have hins : (d.insert k v).contains name = true ↔ d.contains name = true ∨ name = k := by
      rw [contains, get?_insert]
      by_cases h : k = name
      · simp [h]
      · simp [h, contains, Ne.symm h]
    rw [hins, or_assoc]
    refine or_congr_right ⟨?_, ?_⟩
    · rintro (rfl | ⟨w, hw⟩)
      · exact ⟨v, List.mem_cons_self ..⟩
      · exact ⟨w, List.mem_cons_of_mem _ hw⟩
    · rintro ⟨w, hw⟩
      rcases List.mem_cons.1 hw with h | h
      · cases h; exact .inl rfl
      · exact .inr ⟨w, h⟩

theorem contains_ofList_iff (name : String) (l : List (String × α)) :
    (ofList l).contains name = true ↔ ∃ v, (name, v) ∈ l := by
  rw [ofList, contains_foldl_insert]
  simp [contains]

end Dict

namespace Term

/-- The free constants are the names that occur free. -/
theorem freeConsts_contains_iff (t : Term) (name : String) :
    t.freeConsts.contains name = true ↔ ∃ s, (name, s) ∈ t.freeOccurrences [] :=
  Dict.contains_ofList_iff name _

theorem freeOccurrencesAll_eq (bound : List String) (ts : List Term) :
    freeOccurrencesAll bound ts = ts.flatMap (freeOccurrences bound) := by
  induction ts with
  | nil => rfl
  | cons t ts ih => rw [freeOccurrencesAll, ih, List.flatMap_cons]

theorem meaningAll_congr (j : Junction) {I J : Interpretation} :
    ∀ {ts : List Term}, (∀ t ∈ ts, t.meaning I = t.meaning J) → meaningAll j ts I = meaningAll j ts J
  | [], _ => rfl
  | t :: ts, h => by
    rw [meaningAll, meaningAll, h t (List.mem_cons_self ..),
      meaningAll_congr j fun u hu => h u (List.mem_cons_of_mem _ hu)]

/-- Interpretations that agree on the names bound outside and on the free constants of a term give
it the same meaning. -/
theorem meaning_congr_on (t : Term) : ∀ (bound : List String) (S : String → Prop) (I J : Interpretation),
    (∀ o ∈ t.freeOccurrences bound, S o.1) → (∀ n ∈ bound, S n) → Interpretation.AgreeOn S I J →
    t.meaning I = t.meaning J := by
  induction t with
  | const name s =>
    intro bound S I J ht hb h
    have hname : S name := by
      by_cases hin : name ∈ bound
      · exact hb name hin
      · exact ht (name, s) (by simp [freeOccurrences, hin])
    rw [meaning, meaning, h.2 name hname]
  | bool b => intros; rfl
  | int n => intros; rfl
  | real q => intros; rfl
  | arith op a b iha ihb =>
    intro bound S I J ht hb h
    simp only [freeOccurrences, List.forall_mem_append] at ht
    rw [meaning, meaning, iha bound S I J ht.1 hb h, ihb bound S I J ht.2 hb h]
  | div a b iha ihb =>
    intro bound S I J ht hb h
    simp only [freeOccurrences, List.forall_mem_append] at ht
    rw [meaning, meaning, iha bound S I J ht.1 hb h, ihb bound S I J ht.2 hb h, h.1]
  | neg a ih =>
    intro bound S I J ht hb h
    rw [meaning, meaning, ih bound S I J ht hb h]
  | ite c a b ihc iha ihb =>
    intro bound S I J ht hb h
    simp only [freeOccurrences, List.forall_mem_append] at ht
    rw [meaning, meaning, ihc bound S I J ht.1.1 hb h, iha bound S I J ht.1.2 hb h, ihb bound S I J ht.2 hb h]
  | eq a b iha ihb =>
    intro bound S I J ht hb h
    simp only [freeOccurrences, List.forall_mem_append] at ht
    rw [meaning, meaning, iha bound S I J ht.1 hb h, ihb bound S I J ht.2 hb h]
  | compare op a b iha ihb =>
    intro bound S I J ht hb h
    simp only [freeOccurrences, List.forall_mem_append] at ht
    rw [meaning, meaning, iha bound S I J ht.1 hb h, ihb bound S I J ht.2 hb h]
  | junction j ts ih =>
    intro bound S I J ht hb h
    rw [freeOccurrences, freeOccurrencesAll_eq] at ht
    rw [meaning, meaning, meaningAll_congr j fun t hmem =>
      ih t hmem bound S I J (fun o ho => ht o (List.mem_flatMap.2 ⟨t, hmem, ho⟩)) hb h]
  | not a ih =>
    intro bound S I J ht hb h
    rw [meaning, meaning, ih bound S I J ht hb h]
  | implies a b iha ihb =>
    intro bound S I J ht hb h
    simp only [freeOccurrences, List.forall_mem_append] at ht
    rw [meaning, meaning, iha bound S I J ht.1 hb h, ihb bound S I J ht.2 hb h]
  | quantified q binders body ih =>
    intro bound S I J ht hb h
    rw [meaning, meaning]
    congr 1
    rw [decide_eq_decide]
    -- below the quantifier its own variables are bound too
    refine Interpretation.quantify_congr q binders S I J h fun I' J' h' => ?_
    rw [ih (bound ++ binders.map (·.name)) _ I' J' (fun o ho => .inl (ht o ho)) ?_ h']
    intro n hn
    exact (List.mem_append.1 hn).imp_left (hb n)

/-- The meaning of a term depends only on its free constants. -/
theorem meaning_congr (t : Term) {I J : Interpretation}
    (h : Interpretation.AgreeOn (fun n => ∃ s, (n, s) ∈ t.freeOccurrences []) I J) : t.meaning I = t.meaning J :=
  t.meaning_congr_on [] _ I J (fun o ho => ⟨o.2, ho⟩) (fun _ hn => nomatch hn) h

/-- The name does not occur free. -/
def NotFree (t : Term) (name : String) : Prop := ∀ s, (name, s) ∉ t.freeOccurrences []

/-- A name that is not free can take any value. -/
theorem NotFree.meaning_set {t : Term} {name : String} (h : t.NotFree name) (I : Interpretation) (d : Datum) :
    t.meaning (I.set name d) = t.meaning I := by
  refine t.meaning_congr ⟨rfl, ?_⟩
  rintro n ⟨s, hs⟩
  exact I.set_value_of_ne d fun hn => h s (hn ▸ hs)

end Term

end RoadPolicy
