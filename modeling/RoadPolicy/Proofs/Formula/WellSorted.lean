/-
Well-sorted terms: arithmetic and comparisons take numbers, connectives take formulas, the two sides
of an equation and the two branches of a choice are both formulas or both numbers, and a bound
variable has the sort that its quantifier gives it. A signature says which sorts the constants that
are free in a term may have. The value of a well-sorted term is of the kind that its sort announces.
-/
import RoadPolicy.Proofs.Formula.Meaning

namespace RoadPolicy

/-- Which sorts a constant may have. -/
abbrev Signature := String → TermSort → Prop

namespace Signature

/-- The signature below a quantifier. Of two variables with one name, the last one counts. -/
def bind (Γ : Signature) : List Binder → Signature
  | [] => Γ
  | b :: binders => bind (fun name s => if name = b.name then s = b.sort else Γ name s) binders

/-- Constants of every sort. -/
def free : Signature := fun _ _ => True

theorem bind_mono {name : String} {s : TermSort} : ∀ {binders : List Binder} {Γ Δ : Signature},
    (name ∉ binders.map (·.name) → Γ name s → Δ name s) → Γ.bind binders name s → Δ.bind binders name s
  | [], Γ, Δ, h, hΓ => h (by simp) hΓ
  | b :: binders, Γ, Δ, h, hΓ => by
    rw [bind] at hΓ ⊢
    refine bind_mono (fun hname hs => ?_) hΓ
    by_cases hb : name = b.name
    · rw [if_pos hb] at hs ⊢; exact hs
    · rw [if_neg hb] at hs ⊢
      exact h (by simpa [hb] using hname) hs

theorem bind_of_not_mem {name : String} {s : TermSort} : ∀ {binders : List Binder} {Γ : Signature},
    name ∉ binders.map (·.name) → Γ name s → Γ.bind binders name s
  | [], _, _, hΓ => hΓ
  | b :: binders, Γ, hname, hΓ => by
    simp only [List.map_cons, List.mem_cons, not_or] at hname
    rw [bind]
    exact bind_of_not_mem hname.2 (by rw [if_neg hname.1]; exact hΓ)

end Signature

namespace Term

mutual

/-- The term is well-sorted. -/
def WellSorted : Term → Signature → Prop
  | const name s, Γ => Γ name s
  | bool _, _ => True
  | int _, _ => True
  | real _, _ => True
  | arith _ a b, Γ => (a.WellSorted Γ ∧ a.sort ≠ .bool) ∧ b.WellSorted Γ ∧ b.sort ≠ .bool
  | div a b, Γ => (a.WellSorted Γ ∧ a.sort ≠ .bool) ∧ b.WellSorted Γ ∧ b.sort ≠ .bool
  | neg a, Γ => a.WellSorted Γ ∧ a.sort ≠ .bool
  | ite c a b, Γ =>
    (c.WellSorted Γ ∧ c.sort = .bool) ∧ a.WellSorted Γ ∧ b.WellSorted Γ ∧ (a.sort = .bool ↔ b.sort = .bool)
  | eq a b, Γ => a.WellSorted Γ ∧ b.WellSorted Γ ∧ (a.sort = .bool ↔ b.sort = .bool)
  | compare _ a b, Γ => (a.WellSorted Γ ∧ a.sort ≠ .bool) ∧ b.WellSorted Γ ∧ b.sort ≠ .bool
  | junction _ ts, Γ => WellSortedAll ts Γ
  | not a, Γ => a.WellSorted Γ ∧ a.sort = .bool
  | implies a b, Γ => (a.WellSorted Γ ∧ a.sort = .bool) ∧ b.WellSorted Γ ∧ b.sort = .bool
  | quantified _ binders body, Γ => body.WellSorted (Γ.bind binders) ∧ body.sort = .bool

/-- All terms are well-sorted formulas. -/
def WellSortedAll : List Term → Signature → Prop
  | [], _ => True
  | t :: ts, Γ => (t.WellSorted Γ ∧ t.sort = .bool) ∧ WellSortedAll ts Γ

end

/-- A well-sorted number. -/
def IsNumber (t : Term) (Γ : Signature) : Prop := t.WellSorted Γ ∧ t.sort ≠ .bool

/-- A well-sorted formula. -/
def IsFormula (t : Term) (Γ : Signature) : Prop := t.WellSorted Γ ∧ t.sort = .bool

theorem wellSortedAll_iff {ts : List Term} {Γ : Signature} : WellSortedAll ts Γ ↔ ∀ t ∈ ts, t.IsFormula Γ := by
  induction ts with
  | nil => simp [WellSortedAll]
  | cons t ts ih => simp [WellSortedAll, ih, IsFormula]

/-! ## Sorts of terms -/

theorem arith_sort_ne_bool (op : Arith) (a b : Term) : (arith op a b).sort ≠ .bool := by
  rw [sort]; split <;> simp

/-- A choice is a formula if its first branch is. -/
theorem ite_sort_eq_bool_iff (c a b : Term) : (ite c a b).sort = .bool ↔ a.sort = .bool := by
  rw [sort]
  cases a.sort <;> cases b.sort <;> simp

section

variable {Γ : Signature} {a b : Term}

@[simp] theorem isNumber_int (n : Int) : (int n).IsNumber Γ := ⟨trivial, by simp [sort]⟩

@[simp] theorem isNumber_real (q : Rat) : (real q).IsNumber Γ := ⟨trivial, by simp [sort]⟩

theorem isNumber_arith {op : Arith} : (arith op a b).IsNumber Γ ↔ a.IsNumber Γ ∧ b.IsNumber Γ :=
  ⟨fun h => h.1, fun h => ⟨h, arith_sort_ne_bool op a b⟩⟩

@[simp] theorem isNumber_add : (a + b).IsNumber Γ ↔ a.IsNumber Γ ∧ b.IsNumber Γ := isNumber_arith

@[simp] theorem isNumber_sub : (a - b).IsNumber Γ ↔ a.IsNumber Γ ∧ b.IsNumber Γ := isNumber_arith

@[simp] theorem isNumber_mul : (a * b).IsNumber Γ ↔ a.IsNumber Γ ∧ b.IsNumber Γ := isNumber_arith

@[simp] theorem isNumber_square : a.square.IsNumber Γ ↔ a.IsNumber Γ := isNumber_mul.trans (and_self_iff)

@[simp] theorem isNumber_div : (a / b).IsNumber Γ ↔ a.IsNumber Γ ∧ b.IsNumber Γ :=
  ⟨fun h => h.1, fun h => ⟨h, fun hsort => nomatch hsort⟩⟩

@[simp] theorem isNumber_neg : (-a).IsNumber Γ ↔ a.IsNumber Γ := ⟨fun h => h.1, fun h => ⟨h, h.2⟩⟩

theorem isFormula_compare {op : Comparison} : (compare op a b).IsFormula Γ ↔ a.IsNumber Γ ∧ b.IsNumber Γ :=
  ⟨fun h => h.1, fun h => ⟨h, rfl⟩⟩

@[simp] theorem isFormula_lt : (a.lt b).IsFormula Γ ↔ a.IsNumber Γ ∧ b.IsNumber Γ := isFormula_compare

@[simp] theorem isFormula_le : (a.le b).IsFormula Γ ↔ a.IsNumber Γ ∧ b.IsNumber Γ := isFormula_compare

@[simp] theorem isFormula_gt : (a.gt b).IsFormula Γ ↔ a.IsNumber Γ ∧ b.IsNumber Γ := isFormula_compare

@[simp] theorem isFormula_ge : (a.ge b).IsFormula Γ ↔ a.IsNumber Γ ∧ b.IsNumber Γ := isFormula_compare

theorem isFormula_eq (ha : a.WellSorted Γ) (hb : b.WellSorted Γ) (h : a.sort = .bool ↔ b.sort = .bool) :
    (eq a b).IsFormula Γ := ⟨⟨ha, hb, h⟩, rfl⟩

theorem IsNumber.isFormula_eq (ha : a.IsNumber Γ) (hb : b.IsNumber Γ) : (eq a b).IsFormula Γ :=
  Term.isFormula_eq ha.1 hb.1 (by simp [ha.2, hb.2])

@[simp] theorem isFormula_not : a.not.IsFormula Γ ↔ a.IsFormula Γ := ⟨fun h => h.1, fun h => ⟨h, rfl⟩⟩

@[simp] theorem isFormula_implies : (implies a b).IsFormula Γ ↔ a.IsFormula Γ ∧ b.IsFormula Γ :=
  ⟨fun h => h.1, fun h => ⟨h, rfl⟩⟩

theorem isFormula_junction {j : Junction} {ts : List Term} :
    (junction j ts).IsFormula Γ ↔ ∀ t ∈ ts, t.IsFormula Γ :=
  ⟨fun h => wellSortedAll_iff.1 h.1, fun h => ⟨wellSortedAll_iff.2 h, rfl⟩⟩

@[simp] theorem isFormula_and {ts : List Term} : (and ts).IsFormula Γ ↔ ∀ t ∈ ts, t.IsFormula Γ := isFormula_junction

@[simp] theorem isFormula_or {ts : List Term} : (or ts).IsFormula Γ ↔ ∀ t ∈ ts, t.IsFormula Γ := isFormula_junction

theorem isFormula_quantified {q : Quantifier} {binders : List Binder} :
    (quantified q binders a).IsFormula Γ ↔ a.IsFormula (Γ.bind binders) :=
  ⟨fun h => h.1, fun h => ⟨h, rfl⟩⟩

end

/-! ## Only free constants matter -/

/-- A term stays well-sorted under a signature that admits at least its free constants. -/
theorem WellSorted.mono_on {t : Term} : ∀ {bound : List String} {Γ Δ : Signature}, t.WellSorted Γ →
    (∀ o ∈ t.freeOccurrences bound, Γ o.1 o.2 → Δ o.1 o.2) → (∀ n ∈ bound, ∀ s, Γ n s → Δ n s) → t.WellSorted Δ := by
  induction t with
  | const name s =>
    intro bound Γ Δ h ht hb
    by_cases hin : name ∈ bound
    · exact hb name hin s h
    · exact ht (name, s) (by simp [freeOccurrences, hin]) h
  | bool b => intros; trivial
  | int n => intros; trivial
  | real q => intros; trivial
  | arith op a b iha ihb =>
    intro bound Γ Δ h ht hb
    simp only [freeOccurrences, List.forall_mem_append] at ht
    exact ⟨⟨iha h.1.1 ht.1 hb, h.1.2⟩, ihb h.2.1 ht.2 hb, h.2.2⟩
  | div a b iha ihb =>
    intro bound Γ Δ h ht hb
    simp only [freeOccurrences, List.forall_mem_append] at ht
    exact ⟨⟨iha h.1.1 ht.1 hb, h.1.2⟩, ihb h.2.1 ht.2 hb, h.2.2⟩
  | neg a ih => exact fun h ht hb => ⟨ih h.1 ht hb, h.2⟩
  | ite c a b ihc iha ihb =>
    intro bound Γ Δ h ht hb
    simp only [freeOccurrences, List.forall_mem_append] at ht
    exact ⟨⟨ihc h.1.1 ht.1.1 hb, h.1.2⟩, iha h.2.1 ht.1.2 hb, ihb h.2.2.1 ht.2 hb, h.2.2.2⟩
  | eq a b iha ihb =>
    intro bound Γ Δ h ht hb
    simp only [freeOccurrences, List.forall_mem_append] at ht
    exact ⟨iha h.1 ht.1 hb, ihb h.2.1 ht.2 hb, h.2.2⟩
  | compare op a b iha ihb =>
    intro bound Γ Δ h ht hb
    simp only [freeOccurrences, List.forall_mem_append] at ht
    exact ⟨⟨iha h.1.1 ht.1 hb, h.1.2⟩, ihb h.2.1 ht.2 hb, h.2.2⟩
  | junction j ts ih =>
    intro bound Γ Δ h ht hb
    rw [freeOccurrences, freeOccurrencesAll_eq] at ht
    refine wellSortedAll_iff.2 fun t hmem => ?_
    obtain ⟨hws, hsort⟩ := wellSortedAll_iff.1 h t hmem
    exact ⟨ih t hmem hws (fun o ho => ht o (List.mem_flatMap.2 ⟨t, hmem, ho⟩)) hb, hsort⟩
  | not a ih => exact fun h ht hb => ⟨ih h.1 ht hb, h.2⟩
  | implies a b iha ihb =>
    intro bound Γ Δ h ht hb
    simp only [freeOccurrences, List.forall_mem_append] at ht
    exact ⟨⟨iha h.1.1 ht.1 hb, h.1.2⟩, ihb h.2.1 ht.2 hb, h.2.2⟩
  | quantified q binders body ih =>
    intro bound Γ Δ h ht hb
    refine ⟨ih h.1 (fun o ho => Signature.bind_mono fun _ => ht o ho) fun n hn s => ?_, h.2⟩
    -- a name bound here has the sort of its variable under both signatures
    refine Signature.bind_mono fun hnot => ?_
    exact hb n ((List.mem_append.1 hn).resolve_right hnot) s

/-- Quantifiers over names that are not free change nothing for a term. -/
theorem WellSorted.bind {t : Term} {Γ : Signature} {binders : List Binder} (h : t.WellSorted Γ)
    (hfree : ∀ b ∈ binders, t.NotFree b.name) : t.WellSorted (Γ.bind binders) := by
  have hnone : (∀ n ∈ ([] : List String), ∀ s, Γ n s → Γ.bind binders n s) := fun n hn => nomatch hn
  refine h.mono_on (fun o ho hΓ => ?_) hnone
  have hname : o.1 ∉ binders.map (·.name) := by
    intro hmem
    obtain ⟨b, hb, hbo⟩ := List.mem_map.1 hmem
    exact hfree b hb o.2 (by rw [hbo]; exact ho)
  exact Signature.bind_of_not_mem hname hΓ

/-! ## Values of terms -/

/-- A well-sorted formula denotes a truth value, any other well-sorted term a number. -/
theorem WellSorted.meaning_kind {t : Term} {Γ : Signature} (h : t.WellSorted Γ) (I : Interpretation) :
    t.meaning I = if t.sort = .bool then .truth (t.meaning I).isTrue else .number (t.meaning I).amount := by
  induction t generalizing Γ I with
  | const name s => cases s <;> rfl
  | bool b => rfl
  | int n => rfl
  | real q => rfl
  | arith op a b => rw [if_neg (arith_sort_ne_bool op a b)]; rfl
  | div a b => rfl
  | neg a => rw [WellSorted] at h; rw [sort, if_neg h.2]; rfl
  | ite c a b _ iha ihb =>
    rw [WellSorted] at h
    simp only [ite_sort_eq_bool_iff]
    rw [meaning]
    split
    · exact iha h.2.1 I
    · simp only [h.2.2.2]; exact ihb h.2.2.1 I
  | eq a b => rfl
  | compare op a b => rfl
  | junction j ts => rfl
  | not a => rfl
  | implies a b => rfl
  | quantified q binders body => rfl

theorem IsFormula.meaning_eq {t : Term} {Γ : Signature} (h : t.IsFormula Γ) (I : Interpretation) :
    t.meaning I = .truth (t.meaning I).isTrue := by
  have := h.1.meaning_kind I
  rwa [if_pos h.2] at this

theorem IsNumber.meaning_eq {t : Term} {Γ : Signature} (h : t.IsNumber Γ) (I : Interpretation) :
    t.meaning I = .number (I.amount t) := by
  have := h.1.meaning_kind I
  rwa [if_neg h.2] at this

end Term

/-- An equation between numbers is true when the numbers are equal. -/
theorem Interpretation.satisfies_eq_number (I : Interpretation) {a b : Term} {Γ Δ : Signature} (ha : a.IsNumber Γ)
    (hb : b.IsNumber Δ) : I.Satisfies (.eq a b) ↔ I.amount a = I.amount b := by
  rw [satisfies_eq, ha.meaning_eq, hb.meaning_eq, Datum.number.injEq]

end RoadPolicy
