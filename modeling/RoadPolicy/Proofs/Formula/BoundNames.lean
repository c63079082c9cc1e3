/-
Marked names and what binds them. A term is tidy if each of its marked constants stands inside a
quantifier that binds it, and if each quantifier binds what a discipline allows at its place. Terms
that are built from tidy ones are tidy, and simplifying keeps them so. From this it follows which
names are free and bound, and how quantifiers are nested.
-/
import Mathlib.Tactic
import RoadPolicy.Formula.Simplify
import RoadPolicy.Proofs.Formula.Subterms

namespace RoadPolicy

/-- Which variables a quantifier may bind inside of quantifiers that bind a list of names. -/
abbrev Discipline := List String → List Binder → Prop

/-- Nothing may be bound. -/
def Discipline.none : Discipline := fun _ _ => False

/-- Anything may be bound. -/
def Discipline.any : Discipline := fun _ _ => True

/-- Anything without a mark may be bound. -/
def Discipline.unmarked : Discipline := fun _ binders => ∀ b ∈ binders, '!' ∉ b.name.toList

/-- What one discipline allows anywhere, the other allows everywhere. -/
def Discipline.Below (F D : Discipline) : Prop := ∀ outer inner binders, F outer binders → D inner binders

namespace Term

mutual

/-- Marked constants are bound, and quantifiers keep to the discipline; `bound` are the names bound outside. -/
def Tidy (D : Discipline) (bound : List String) : Term → Prop
  | const name _ => '!' ∈ name.toList → name ∈ bound
  | bool _ => True
  | int _ => True
  | real _ => True
  | arith _ a b => a.Tidy D bound ∧ b.Tidy D bound
  | div a b => a.Tidy D bound ∧ b.Tidy D bound
  | neg a => a.Tidy D bound
  | ite c a b => c.Tidy D bound ∧ a.Tidy D bound ∧ b.Tidy D bound
  | eq a b => a.Tidy D bound ∧ b.Tidy D bound
  | compare _ a b => a.Tidy D bound ∧ b.Tidy D bound
  | junction _ ts => TidyAll D bound ts
  | not a => a.Tidy D bound
  | implies a b => a.Tidy D bound ∧ b.Tidy D bound
  | quantified _ binders body => D bound binders ∧ body.Tidy D (bound ++ binders.map (·.name))

def TidyAll (D : Discipline) (bound : List String) : List Term → Prop
  | [] => True
  | t :: ts => t.Tidy D bound ∧ TidyAll D bound ts

end

section

variable {D : Discipline} {bound : List String} {a b c : Term}

theorem tidyAll_iff {ts : List Term} : TidyAll D bound ts ↔ ∀ t ∈ ts, t.Tidy D bound := by
  induction ts with
  | nil => simp [TidyAll]
  | cons t ts ih => rw [TidyAll, ih, List.forall_mem_cons]

@[simp] theorem tidy_const {name : String} {s : TermSort} :
    (const name s).Tidy D bound ↔ ('!' ∈ name.toList → name ∈ bound) := Iff.rfl

@[simp] theorem tidy_realConst {name : String} :
    (realConst name).Tidy D bound ↔ ('!' ∈ name.toList → name ∈ bound) := Iff.rfl

@[simp] theorem tidy_boolConst {name : String} :
    (boolConst name).Tidy D bound ↔ ('!' ∈ name.toList → name ∈ bound) := Iff.rfl

@[simp] theorem tidy_bool {x : Bool} : (bool x).Tidy D bound := trivial

@[simp] theorem tidy_int {n : Int} : (int n).Tidy D bound := trivial

@[simp] theorem tidy_real {q : Rat} : (real q).Tidy D bound := trivial

@[simp] theorem tidy_arith {op : Arith} : (arith op a b).Tidy D bound ↔ a.Tidy D bound ∧ b.Tidy D bound := Iff.rfl

@[simp] theorem tidy_add : (a + b).Tidy D bound ↔ a.Tidy D bound ∧ b.Tidy D bound := Iff.rfl

@[simp] theorem tidy_sub : (a - b).Tidy D bound ↔ a.Tidy D bound ∧ b.Tidy D bound := Iff.rfl

@[simp] theorem tidy_mul : (a * b).Tidy D bound ↔ a.Tidy D bound ∧ b.Tidy D bound := Iff.rfl

@[simp] theorem tidy_square : a.square.Tidy D bound ↔ a.Tidy D bound := and_self_iff

@[simp] theorem tidy_div : (div a b).Tidy D bound ↔ a.Tidy D bound ∧ b.Tidy D bound := Iff.rfl

@[simp] theorem tidy_divide : (a / b).Tidy D bound ↔ a.Tidy D bound ∧ b.Tidy D bound := Iff.rfl

@[simp] theorem tidy_neg : (neg a).Tidy D bound ↔ a.Tidy D bound := Iff.rfl

@[simp] theorem tidy_negate : (-a).Tidy D bound ↔ a.Tidy D bound := Iff.rfl

@[simp] theorem tidy_ite : (ite c a b).Tidy D bound ↔ c.Tidy D bound ∧ a.Tidy D bound ∧ b.Tidy D bound := Iff.rfl

@[simp] theorem tidy_eq : (eq a b).Tidy D bound ↔ a.Tidy D bound ∧ b.Tidy D bound := Iff.rfl

@[simp] theorem tidy_compare {op : Comparison} : (compare op a b).Tidy D bound ↔ a.Tidy D bound ∧ b.Tidy D bound :=
  Iff.rfl

@[simp] theorem tidy_lt : (a.lt b).Tidy D bound ↔ a.Tidy D bound ∧ b.Tidy D bound := Iff.rfl

@[simp] theorem tidy_le : (a.le b).Tidy D bound ↔ a.Tidy D bound ∧ b.Tidy D bound := Iff.rfl

@[simp] theorem tidy_gt : (a.gt b).Tidy D bound ↔ a.Tidy D bound ∧ b.Tidy D bound := Iff.rfl

@[simp] theorem tidy_ge : (a.ge b).Tidy D bound ↔ a.Tidy D bound ∧ b.Tidy D bound := Iff.rfl

@[simp] theorem tidy_junction {j : Junction} {ts : List Term} :
    (junction j ts).Tidy D bound ↔ ∀ t ∈ ts, t.Tidy D bound := tidyAll_iff

@[simp] theorem tidy_and {ts : List Term} : (and ts).Tidy D bound ↔ ∀ t ∈ ts, t.Tidy D bound := tidyAll_iff

@[simp] theorem tidy_or {ts : List Term} : (or ts).Tidy D bound ↔ ∀ t ∈ ts, t.Tidy D bound := tidyAll_iff

@[simp] theorem tidy_not : (not a).Tidy D bound ↔ a.Tidy D bound := Iff.rfl

@[simp] theorem tidy_ne : (a.ne b).Tidy D bound ↔ a.Tidy D bound ∧ b.Tidy D bound := Iff.rfl

@[simp] theorem tidy_abs : a.abs.Tidy D bound ↔ a.Tidy D bound := by
  simp [abs]

@[simp] theorem tidy_implies : (implies a b).Tidy D bound ↔ a.Tidy D bound ∧ b.Tidy D bound := Iff.rfl

@[simp] theorem tidy_quantified {q : Quantifier} {binders : List Binder} :
    (quantified q binders a).Tidy D bound ↔ D bound binders ∧ a.Tidy D (bound ++ binders.map (·.name)) := Iff.rfl

end

/-- A tidy term stays so under a discipline that allows more, and inside of further quantifiers. -/
theorem Tidy.mono {D D' : Discipline} {t : Term} (extra : List String) {bound : List String}
    (hD : ∀ bound binders, D bound binders → D' (extra ++ bound) binders) (h : t.Tidy D bound) :
    t.Tidy D' (extra ++ bound) := by
  induction t generalizing bound with
  | const name s => exact fun hmark => List.mem_append_right _ (h hmark)
  | bool | int | real => trivial
  | arith op a b iha ihb | div a b iha ihb | eq a b iha ihb | compare op a b iha ihb | implies a b iha ihb =>
    exact ⟨iha h.1, ihb h.2⟩
  | neg a ih | not a ih => exact ih h
  | ite c a b ihc iha ihb => exact ⟨ihc h.1, iha h.2.1, ihb h.2.2⟩
  | junction j ts ih =>
    rw [tidy_junction] at h ⊢
    exact fun t ht => ih t ht (h t ht)
  | quantified q binders body ih =>
    refine ⟨hD _ _ h.1, ?_⟩
    rw [List.append_assoc]
    exact ih h.2

theorem Tidy.imp {D D' : Discipline} {t : Term} {bound : List String}
    (hD : ∀ outer binders, D outer binders → D' outer binders) (h : t.Tidy D bound) : t.Tidy D' bound := h.mono [] hD

/-! ## Simplification -/

section

variable {D : Discipline} {bound : List String} {a b c t : Term}

theorem Tidy.close {j : Junction} {ts : List Term} (h : ∀ t ∈ ts, t.Tidy D bound) : (j.close ts).Tidy D bound := by
  unfold Junction.close
  split
  · trivial
  · exact h _ List.mem_cons_self
  · exact tidy_junction.2 h

theorem Tidy.operands {j : Junction} {us : List Term} (h : t.Tidy D bound) (hus : j.operands t = some us) :
    ∀ u ∈ us, u.Tidy D bound := by
  unfold Junction.operands at hus
  split at hus
  · split at hus
    · cases hus; exact List.forall_mem_nil _
    · cases hus
  · split at hus
    · cases hus; exact tidy_junction.1 h
    · cases hus; exact List.forall_mem_singleton.2 h
  · cases hus; exact List.forall_mem_singleton.2 h

theorem Tidy.negated (h : a.Tidy D bound) : a.negated.Tidy D bound := by
  unfold Term.negated
  split
  · trivial
  · exact h
  · exact h

theorem Tidy.implied (ha : a.Tidy D bound) (hb : b.Tidy D bound) : (a.implied b).Tidy D bound := by
  unfold Term.implied
  split
  · trivial
  · trivial
  · exact hb
  · exact ⟨ha, hb⟩

theorem Tidy.chosen (hc : c.Tidy D bound) (ha : a.Tidy D bound) (hb : b.Tidy D bound) :
    (c.chosen a b).Tidy D bound := by
  unfold Term.chosen
  split
  · exact ha
  · exact hb
  · exact ⟨hc, ha, hb⟩

theorem Tidy.bound_of {q : Quantifier} {binders : List Binder} (h : (quantified q binders a).Tidy D bound) :
    (a.bound q binders).Tidy D bound := by
  unfold Term.bound
  split
  · trivial
  · exact h

theorem Tidy.simplifyOperands {j : Junction} : ∀ {ts us : List Term}, (∀ t ∈ ts, t.simplify.Tidy D bound) →
    simplifyOperands j ts = some us → ∀ u ∈ us, u.Tidy D bound
  | [], us, _, hus => by cases hus; exact List.forall_mem_nil _
  | t :: ts, us, h, hus => by
    rw [List.forall_mem_cons] at h
    rw [Term.simplifyOperands] at hus
    rcases hfirst : j.operands t.simplify with _ | vs
    · rw [hfirst] at hus; cases hus
    rw [hfirst] at hus
    obtain ⟨ws, hws, rfl⟩ := Option.map_eq_some_iff.1 hus
    exact List.forall_mem_append.2 ⟨h.1.operands hfirst, Tidy.simplifyOperands h.2 hws⟩

theorem Tidy.simplify (h : t.Tidy D bound) : t.simplify.Tidy D bound := by
  induction t generalizing bound with
  | const name s => rw [Term.simplify]; exact h
  | bool | int | real => rw [Term.simplify]; trivial
  | arith op a b iha ihb | div a b iha ihb | eq a b iha ihb | compare op a b iha ihb =>
    rw [Term.simplify]
    exact ⟨iha h.1, ihb h.2⟩
  | neg a ih => rw [Term.simplify]; exact ih h
  | ite c a b ihc iha ihb => rw [Term.simplify]; exact (ihc h.1).chosen (iha h.2.1) (ihb h.2.2)
  | junction j ts ih =>
    rw [tidy_junction] at h
    rw [Term.simplify]
    rcases hus : Term.simplifyOperands j ts with _ | us
    · trivial
    · exact Tidy.close (Tidy.simplifyOperands (fun t ht => ih t ht (h t ht)) hus)
  | not a ih => rw [Term.simplify]; exact (ih h).negated
  | implies a b iha ihb => rw [Term.simplify]; exact (iha h.1).implied (ihb h.2)
  | quantified q binders body ih => rw [Term.simplify]; exact Tidy.bound_of ⟨h.1, ih h.2⟩

end

/-! ## Free and bound names -/

section

variable {D : Discipline} {bound : List String} {t : Term}

/-- No marked constant is free. -/
theorem Tidy.free (h : t.Tidy D bound) : ∀ o ∈ t.freeOccurrences bound, '!' ∉ o.1.toList := by
  induction t generalizing bound with
  | const name s =>
    rw [freeOccurrences]
    split
    · exact List.forall_mem_nil _
    next hfree => exact List.forall_mem_singleton.2 fun hmark => hfree (h hmark)
  | bool | int | real => exact List.forall_mem_nil _
  | arith op a b iha ihb | div a b iha ihb | eq a b iha ihb | compare op a b iha ihb | implies a b iha ihb =>
    exact List.forall_mem_append.2 ⟨iha h.1, ihb h.2⟩
  | neg a ih | not a ih => exact ih h
  | ite c a b ihc iha ihb =>
    exact List.forall_mem_append.2 ⟨List.forall_mem_append.2 ⟨ihc h.1, iha h.2.1⟩, ihb h.2.2⟩
  | junction j ts ih =>
    rw [tidy_junction] at h
    rw [freeOccurrences, freeOccurrencesAll_eq]
    intro o ho
    obtain ⟨t, ht, ho⟩ := List.mem_flatMap.1 ho
    exact ih t ht (h t ht) o ho
  | quantified q binders body ih => exact ih h.2

/-- The quantifiers of a tidy term, with the names bound outside: each keeps to the discipline. -/
theorem Tidy.quantified_mem {q : Quantifier} {binders : List Binder} {body : Term} (h : t.Tidy D bound)
    (hmem : quantified q binders body ∈ t.subterms) : ∃ outer, (quantified q binders body).Tidy D outer := by
  induction t generalizing bound with
  | const | bool | int | real => simp [subterms] at hmem
  | arith op a b iha ihb | div a b iha ihb | eq a b iha ihb | compare op a b iha ihb | implies a b iha ihb =>
    simp only [subterms, List.mem_cons, List.mem_append, reduceCtorEq, false_or] at hmem
    exact hmem.elim (iha h.1) (ihb h.2)
  | neg a ih | not a ih =>
    simp only [subterms, List.mem_cons, reduceCtorEq, false_or] at hmem
    exact ih h hmem
  | ite c a b ihc iha ihb =>
    simp only [subterms, List.mem_cons, List.mem_append, reduceCtorEq, false_or] at hmem
    rcases hmem with (hmem | hmem) | hmem
    · exact ihc h.1 hmem
    · exact iha h.2.1 hmem
    · exact ihb h.2.2 hmem
  | junction j ts ih =>
    simp only [subterms, subtermsAll_eq, List.mem_cons, List.mem_flatMap, reduceCtorEq, false_or] at hmem
    obtain ⟨t, ht, hmem⟩ := hmem
    exact ih t ht (tidy_junction.1 h t ht) hmem
  | quantified q' binders' body' ih =>
    rcases List.mem_cons.1 hmem with heq | hmem
    · rw [heq]
      exact ⟨bound, h⟩
    · exact ih h.2 hmem

theorem Tidy.boundNames (h : t.Tidy D bound) {name : String} (hname : name ∈ t.boundNames) :
    ∃ outer binders, D outer binders ∧ name ∈ binders.map (·.name) := by
  obtain ⟨s, hs, b, hb, rfl⟩ := mem_boundNames_iff.1 hname
  cases s with
  | quantified q binders body =>
    obtain ⟨outer, hq⟩ := h.quantified_mem hs
    exact ⟨outer, binders, hq.1, List.mem_map_of_mem hb⟩
  | _ => cases hb

theorem Tidy.boundNames_eq_nil (h : t.Tidy D bound) (hnone : ∀ outer binders, ¬ D outer binders) :
    t.boundNames = [] := by
  rw [List.eq_nil_iff_forall_not_mem]
  intro name hname
  obtain ⟨outer, binders, hD, -⟩ := h.boundNames hname
  exact hnone outer binders hD

/-- Where the discipline allows no quantifier there is none. -/
theorem Tidy.quantifierFree (h : t.Tidy D bound) (hnone : ∀ binders, ¬ D bound binders) : t.quantifierFree = true := by
  induction t with
  | const | bool | int | real => rfl
  | arith op a b iha ihb | div a b iha ihb | eq a b iha ihb | compare op a b iha ihb | implies a b iha ihb =>
    rw [Term.quantifierFree, iha h.1, ihb h.2]
    rfl
  | neg a ih | not a ih => exact ih h
  | ite c a b ihc iha ihb =>
    rw [Term.quantifierFree, ihc h.1, iha h.2.1, ihb h.2.2]
    rfl
  | junction j ts ih =>
    rw [tidy_junction] at h
    exact quantifierFreeAll_iff.2 fun t ht => ih t ht (h t ht)
  | quantified q binders body ih => exact absurd h.1 (hnone binders)

/-- A term without free marked constants is tidy if it has no quantifiers, or if the discipline allows all of them. -/
theorem tidy_of_free (hq : t.quantifierFree = true ∨ ∀ outer binders, D outer binders)
    (hfree : ∀ o ∈ t.freeOccurrences bound, '!' ∉ o.1.toList) : t.Tidy D bound := by
  induction t generalizing bound with
  | const name s =>
    intro hmark
    by_contra hbound
    rw [freeOccurrences, if_neg hbound] at hfree
    exact hfree _ List.mem_cons_self hmark
  | bool | int | real => trivial
  | arith op a b iha ihb | div a b iha ihb | eq a b iha ihb | compare op a b iha ihb | implies a b iha ihb =>
    rw [Term.quantifierFree, Bool.and_eq_true] at hq
    rw [freeOccurrences, List.forall_mem_append] at hfree
    exact ⟨iha (hq.imp_left And.left) hfree.1, ihb (hq.imp_left And.right) hfree.2⟩
  | neg a ih | not a ih => exact ih hq hfree
  | ite c a b ihc iha ihb =>
    rw [Term.quantifierFree, Bool.and_eq_true, Bool.and_eq_true] at hq
    rw [freeOccurrences, List.forall_mem_append, List.forall_mem_append] at hfree
    exact ⟨ihc (hq.imp_left fun h => h.1.1) hfree.1.1, iha (hq.imp_left fun h => h.1.2) hfree.1.2,
      ihb (hq.imp_left And.right) hfree.2⟩
  | junction j ts ih =>
    rw [Term.quantifierFree, quantifierFreeAll_iff] at hq
    rw [freeOccurrences, freeOccurrencesAll_eq] at hfree
    rw [tidy_junction]
    exact fun t ht => ih t ht (hq.imp_left fun h => h t ht) fun o ho => hfree o (List.mem_flatMap_of_mem ht ho)
  | quantified q binders body ih =>
    rcases hq with hq | hD
    · cases hq
    · exact ⟨hD _ _, ih (.inr hD) hfree⟩

/-- Under no discipline can a term without quantifiers and free marked constants be untidy. -/
theorem tidy_of_quantifierFree (hq : t.quantifierFree = true)
    (hfree : ∀ o ∈ t.freeOccurrences bound, '!' ∉ o.1.toList) : t.Tidy D bound := tidy_of_free (.inl hq) hfree

/-- Where anything may be bound, a term is tidy exactly if no marked constant is free. -/
theorem tidy_any_iff : t.Tidy Discipline.any bound ↔ ∀ o ∈ t.freeOccurrences bound, '!' ∉ o.1.toList :=
  ⟨Tidy.free, tidy_of_free (.inr fun _ _ => trivial)⟩

/-- No name of the term has a mark, be it free or bound. -/
def Markless (t : Term) : Prop := ∀ name ∈ t.constNames ++ t.boundNames, '!' ∉ name.toList

theorem markless_iff : t.Markless ↔ t.Everywhere fun s =>
    (∀ name, s.constName? = some name → '!' ∉ name.toList) ∧ ∀ b ∈ s.ownBinders, '!' ∉ b.name.toList := by
  simp only [Markless, List.forall_mem_append, mem_constNames_iff, mem_boundNames_iff, Everywhere]
  grind

theorem Markless.tidy (h : t.Markless) : t.Tidy Discipline.unmarked bound := by
  rw [markless_iff] at h
  induction t generalizing bound with
  | const name s => exact fun hmark => absurd hmark ((everywhere_const.1 h).1 name rfl)
  | bool | int | real => trivial
  | arith op a b iha ihb => exact ⟨iha (everywhere_arith.1 h).2.1, ihb (everywhere_arith.1 h).2.2⟩
  | div a b iha ihb => exact ⟨iha (everywhere_div.1 h).2.1, ihb (everywhere_div.1 h).2.2⟩
  | eq a b iha ihb => exact ⟨iha (everywhere_eq.1 h).2.1, ihb (everywhere_eq.1 h).2.2⟩
  | compare op a b iha ihb => exact ⟨iha (everywhere_compare.1 h).2.1, ihb (everywhere_compare.1 h).2.2⟩
  | implies a b iha ihb => exact ⟨iha (everywhere_implies.1 h).2.1, ihb (everywhere_implies.1 h).2.2⟩
  | neg a ih => exact ih (everywhere_neg.1 h).2
  | not a ih => exact ih (everywhere_not.1 h).2
  | ite c a b ihc iha ihb =>
    obtain ⟨-, hc, ha, hb⟩ := everywhere_ite.1 h
    exact ⟨ihc hc, iha ha, ihb hb⟩
  | junction j ts ih => exact tidy_junction.2 fun t ht => ih t ht ((everywhere_junction.1 h).2 t ht)
  | quantified q binders body ih => exact ⟨(everywhere_quantified.1 h).1.2, ih (everywhere_quantified.1 h).2⟩

end

end Term

end RoadPolicy
