/-
Properties of all parts of a term: a statement about every part splits along the constructors. The
names of a term are those of its constants and those that its quantifiers bind.
-/
import Mathlib.Tactic
import RoadPolicy.Formula.Term
import RoadPolicy.Proofs.DictEntries
import RoadPolicy.Proofs.Formula.Meaning

namespace RoadPolicy

namespace Term

theorem subtermsAll_eq (ts : List Term) : subtermsAll ts = ts.flatMap subterms := by
  induction ts with
  | nil => rfl
  | cons t ts ih => rw [subtermsAll, ih, List.flatMap_cons]

theorem quantifierFreeAll_iff {ts : List Term} : quantifierFreeAll ts = true ↔ ∀ t ∈ ts, t.quantifierFree = true := by
  induction ts with
  | nil => simp [quantifierFreeAll]
  | cons t ts ih => simp [quantifierFreeAll, ih]

/-- A property of the term and of all its parts. -/
def Everywhere (P : Term → Prop) (t : Term) : Prop := ∀ s ∈ t.subterms, P s

section

variable {P : Term → Prop}

@[simp] theorem everywhere_const {name : String} {s : TermSort} :
    (const name s).Everywhere P ↔ P (const name s) := List.forall_mem_singleton

@[simp] theorem everywhere_bool {b : Bool} : (bool b).Everywhere P ↔ P (bool b) := List.forall_mem_singleton

@[simp] theorem everywhere_int {n : Int} : (int n).Everywhere P ↔ P (int n) := List.forall_mem_singleton

@[simp] theorem everywhere_real {q : Rat} : (real q).Everywhere P ↔ P (real q) := List.forall_mem_singleton

@[simp] theorem everywhere_arith {op : Arith} {a b : Term} :
    (arith op a b).Everywhere P ↔ P (arith op a b) ∧ a.Everywhere P ∧ b.Everywhere P :=
  List.forall_mem_cons.trans (and_congr_right' List.forall_mem_append)

@[simp] theorem everywhere_div {a b : Term} :
    (div a b).Everywhere P ↔ P (div a b) ∧ a.Everywhere P ∧ b.Everywhere P :=
  List.forall_mem_cons.trans (and_congr_right' List.forall_mem_append)

@[simp] theorem everywhere_neg {a : Term} : (neg a).Everywhere P ↔ P (neg a) ∧ a.Everywhere P :=
  List.forall_mem_cons

@[simp] theorem everywhere_ite {c a b : Term} :
    (ite c a b).Everywhere P ↔ P (ite c a b) ∧ c.Everywhere P ∧ a.Everywhere P ∧ b.Everywhere P := by
  refine List.forall_mem_cons.trans (and_congr_right' ?_)
  rw [List.forall_mem_append, List.forall_mem_append, and_assoc]
  rfl

@[simp] theorem everywhere_eq {a b : Term} :
    (eq a b).Everywhere P ↔ P (eq a b) ∧ a.Everywhere P ∧ b.Everywhere P :=
  List.forall_mem_cons.trans (and_congr_right' List.forall_mem_append)

@[simp] theorem everywhere_compare {op : Comparison} {a b : Term} :
    (compare op a b).Everywhere P ↔ P (compare op a b) ∧ a.Everywhere P ∧ b.Everywhere P :=
  List.forall_mem_cons.trans (and_congr_right' List.forall_mem_append)

@[simp] theorem everywhere_junction {j : Junction} {ts : List Term} :
    (junction j ts).Everywhere P ↔ P (junction j ts) ∧ ∀ t ∈ ts, t.Everywhere P := by
  refine List.forall_mem_cons.trans (and_congr_right' ?_)
  rw [subtermsAll_eq]
  simp only [List.mem_flatMap, forall_exists_index, and_imp]
  constructor
  · intro h t ht s hs
    exact h s t ht hs
  · intro h s t ht hs
    exact h t ht s hs

@[simp] theorem everywhere_not {a : Term} : (not a).Everywhere P ↔ P (not a) ∧ a.Everywhere P :=
  List.forall_mem_cons

@[simp] theorem everywhere_implies {a b : Term} :
    (implies a b).Everywhere P ↔ P (implies a b) ∧ a.Everywhere P ∧ b.Everywhere P :=
  List.forall_mem_cons.trans (and_congr_right' List.forall_mem_append)

@[simp] theorem everywhere_quantified {q : Quantifier} {binders : List Binder} {body : Term} :
    (quantified q binders body).Everywhere P ↔ P (quantified q binders body) ∧ body.Everywhere P :=
  List.forall_mem_cons

end

/-! ## Names -/

/-- The variables that the term itself binds, if it is quantified. -/
def ownBinders : Term → List Binder
  | quantified _ binders _ => binders
  | _ => []

/-- The names that the quantifiers of a term bind. -/
def boundNames (t : Term) : List String := t.subterms.flatMap fun s => s.ownBinders.map (·.name)

theorem mem_boundNames_iff {t : Term} {name : String} :
    name ∈ t.boundNames ↔ ∃ s ∈ t.subterms, ∃ b ∈ s.ownBinders, b.name = name := by
  simp [boundNames]

/-- The names of constants are those of the parts that are constants. -/
theorem mem_constNames_iff {t : Term} {name : String} :
    name ∈ t.constNames ↔ ∃ s ∈ t.subterms, s.constName? = some name := by
  have hkeys : name ∈ t.constNames ↔ (Dict.ofList (t.subterms.filterMap fun s => s.constName?.map (·, ()))).contains
      name = true := by
    unfold constNames Dict.keys Dict.contains
    rw [Option.isSome_iff_exists]
    simp only [Dict.get?_eq_some_iff, List.mem_map, Prod.exists, exists_and_right, exists_eq_right]
  rw [hkeys, Dict.contains_ofList_iff]
  simp

@[simp] theorem boundNames_quantified {q : Quantifier} {binders : List Binder} {body : Term} :
    (quantified q binders body).boundNames = binders.map (·.name) ++ body.boundNames := rfl

@[simp] theorem boundNames_junction {j : Junction} {ts : List Term} :
    (junction j ts).boundNames = ts.flatMap boundNames := by
  show (subtermsAll ts).flatMap _ = _
  rw [subtermsAll_eq, List.flatMap_assoc]
  rfl

end Term

end RoadPolicy
