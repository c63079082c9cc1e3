/-
Terms whose sorts fit: every operator in them, also below a quantifier, takes operands of its sorts.
A constant that no quantifier binds has a sort of the signature, while a bound name may be written
with any sort. Unlike a well-sorted term, a term whose sorts fit stays one when a quantifier around
it happens to bind a name that occurs in it. Simplification keeps this, too.
-/
import RoadPolicy.Formula.Simplify
import RoadPolicy.Proofs.Formula.WellSorted

namespace RoadPolicy

namespace Signature

/-- The signature in which some names may have any sort. -/
def relax (Γ : Signature) (binders : List Binder) : Signature :=
  fun name s => name ∈ binders.map (·.name) ∨ Γ name s

theorem relax_of_bind {name : String} {s : TermSort} : ∀ {binders : List Binder} {Γ : Signature},
    Γ.bind binders name s → Γ.relax binders name s
  | [], _, h => .inr h
  | b :: binders, Γ, h => by
    rw [bind] at h
    rcases relax_of_bind h with hmem | hb
    · exact .inl (List.mem_cons_of_mem _ hmem)
    · by_cases hname : name = b.name
      · exact .inl (hname ▸ List.mem_cons_self ..)
      · rw [if_neg hname] at hb
        exact .inr hb

end Signature

namespace Term

mutual

/-- The sorts in the term fit. -/
def Fits : Term → Signature → Prop
  | const name s, Γ => Γ name s
  | bool _, _ => True
  | int _, _ => True
  | real _, _ => True
  | arith _ a b, Γ => (a.Fits Γ ∧ a.sort ≠ .bool) ∧ b.Fits Γ ∧ b.sort ≠ .bool
  | div a b, Γ => (a.Fits Γ ∧ a.sort ≠ .bool) ∧ b.Fits Γ ∧ b.sort ≠ .bool
  | neg a, Γ => a.Fits Γ ∧ a.sort ≠ .bool
  | ite c a b, Γ => (c.Fits Γ ∧ c.sort = .bool) ∧ a.Fits Γ ∧ b.Fits Γ ∧ (a.sort = .bool ↔ b.sort = .bool)
  | eq a b, Γ => a.Fits Γ ∧ b.Fits Γ ∧ (a.sort = .bool ↔ b.sort = .bool)
  | compare _ a b, Γ => (a.Fits Γ ∧ a.sort ≠ .bool) ∧ b.Fits Γ ∧ b.sort ≠ .bool
  | junction _ ts, Γ => FitsAll ts Γ
  | not a, Γ => a.Fits Γ ∧ a.sort = .bool
  | implies a b, Γ => (a.Fits Γ ∧ a.sort = .bool) ∧ b.Fits Γ ∧ b.sort = .bool
  | quantified _ binders body, Γ => body.Fits (Γ.relax binders) ∧ body.sort = .bool

/-- All terms are formulas whose sorts fit. -/
def FitsAll : List Term → Signature → Prop
  | [], _ => True
  | t :: ts, Γ => (t.Fits Γ ∧ t.sort = .bool) ∧ FitsAll ts Γ

end

/-- A number whose sorts fit. -/
def FitsNumber (t : Term) (Γ : Signature) : Prop := t.Fits Γ ∧ t.sort ≠ .bool

/-- A formula whose sorts fit. -/
def FitsFormula (t : Term) (Γ : Signature) : Prop := t.Fits Γ ∧ t.sort = .bool

theorem fitsAll_iff {ts : List Term} {Γ : Signature} : FitsAll ts Γ ↔ ∀ t ∈ ts, t.FitsFormula Γ := by
  induction ts with
  | nil => simp [FitsAll]
  | cons t ts ih => simp [FitsAll, ih, FitsFormula]

/-! ## Signatures -/

theorem Fits.mono {t : Term} : ∀ {Γ Δ : Signature}, t.Fits Γ → (∀ name s, Γ name s → Δ name s) → t.Fits Δ := by
  induction t with
  | const name s => exact fun h hΓ => hΓ name s h
  | bool b => intros; trivial
  | int n => intros; trivial
  | real q => intros; trivial
  | arith op a b iha ihb | div a b iha ihb | compare op a b iha ihb =>
    exact fun h hΓ => ⟨⟨iha h.1.1 hΓ, h.1.2⟩, ihb h.2.1 hΓ, h.2.2⟩
  | neg a ih => exact fun h hΓ => ⟨ih h.1 hΓ, h.2⟩
  | ite c a b ihc iha ihb => exact fun h hΓ => ⟨⟨ihc h.1.1 hΓ, h.1.2⟩, iha h.2.1 hΓ, ihb h.2.2.1 hΓ, h.2.2.2⟩
  | eq a b iha ihb => exact fun h hΓ => ⟨iha h.1 hΓ, ihb h.2.1 hΓ, h.2.2⟩
  | junction j ts ih =>
    intro Γ Δ h hΓ
    refine fitsAll_iff.2 fun t ht => ?_
    obtain ⟨hfits, hsort⟩ := fitsAll_iff.1 h t ht
    exact ⟨ih t ht hfits hΓ, hsort⟩
  | not a ih => exact fun h hΓ => ⟨ih h.1 hΓ, h.2⟩
  | implies a b iha ihb => exact fun h hΓ => ⟨⟨iha h.1.1 hΓ, h.1.2⟩, ihb h.2.1 hΓ, h.2.2⟩
  | quantified q binders body ih =>
    exact fun h hΓ => ⟨ih h.1 fun name s => Or.imp_right (hΓ name s), h.2⟩

/-- Below a quantifier the sorts of a term fit as before, whatever names it binds. -/
theorem FitsNumber.relax {t : Term} {Γ : Signature} (h : t.FitsNumber Γ) (binders : List Binder) :
    t.FitsNumber (Γ.relax binders) := ⟨h.1.mono fun _ _ => .inr, h.2⟩

/-- The sorts in a well-sorted term fit. -/
theorem WellSorted.fits {t : Term} : ∀ {Γ : Signature}, t.WellSorted Γ → t.Fits Γ := by
  induction t with
  | const name s => exact id
  | bool b => exact id
  | int n => exact id
  | real q => exact id
  | arith op a b iha ihb | div a b iha ihb | compare op a b iha ihb =>
    exact fun h => ⟨⟨iha h.1.1, h.1.2⟩, ihb h.2.1, h.2.2⟩
  | neg a ih => exact fun h => ⟨ih h.1, h.2⟩
  | ite c a b ihc iha ihb => exact fun h => ⟨⟨ihc h.1.1, h.1.2⟩, iha h.2.1, ihb h.2.2.1, h.2.2.2⟩
  | eq a b iha ihb => exact fun h => ⟨iha h.1, ihb h.2.1, h.2.2⟩
  | junction j ts ih =>
    intro Γ h
    refine fitsAll_iff.2 fun t ht => ?_
    obtain ⟨hsorted, hsort⟩ := wellSortedAll_iff.1 h t ht
    exact ⟨ih t ht hsorted, hsort⟩
  | not a ih => exact fun h => ⟨ih h.1, h.2⟩
  | implies a b iha ihb => exact fun h => ⟨⟨iha h.1.1, h.1.2⟩, ihb h.2.1, h.2.2⟩
  | quantified q binders body ih => exact fun h => ⟨(ih h.1).mono fun _ _ => Signature.relax_of_bind, h.2⟩

/-- A free constant has a sort of the signature. -/
theorem Fits.free {t : Term} : ∀ {Γ Δ : Signature} {bound : List String}, t.Fits Δ →
    (∀ name s, name ∉ bound → Δ name s → Γ name s) → ∀ o ∈ t.freeOccurrences bound, Γ o.1 o.2 := by
  induction t with
  | const name s =>
    intro Γ Δ bound h hΓ o ho
    rw [freeOccurrences] at ho
    split at ho
    · cases ho
    · rename_i hname
      obtain rfl := List.mem_singleton.1 ho
      exact hΓ name s hname h
  | bool b | int n | real q =>
    intro Γ Δ bound h hΓ o ho
    cases ho
  | arith op a b iha ihb | div a b iha ihb | compare op a b iha ihb =>
    intro Γ Δ bound h hΓ o ho
    rcases List.mem_append.1 ho with ho | ho
    · exact iha h.1.1 hΓ o ho
    · exact ihb h.2.1 hΓ o ho
  | neg a ih | not a ih => exact fun h hΓ => ih h.1 hΓ
  | ite c a b ihc iha ihb =>
    intro Γ Δ bound h hΓ o ho
    rcases List.mem_append.1 ho with ho | ho
    · rcases List.mem_append.1 ho with ho | ho
      · exact ihc h.1.1 hΓ o ho
      · exact iha h.2.1 hΓ o ho
    · exact ihb h.2.2.1 hΓ o ho
  | eq a b iha ihb =>
    intro Γ Δ bound h hΓ o ho
    rcases List.mem_append.1 ho with ho | ho
    · exact iha h.1 hΓ o ho
    · exact ihb h.2.1 hΓ o ho
  | junction j ts ih =>
    intro Γ Δ bound h hΓ o ho
    rw [freeOccurrences, freeOccurrencesAll_eq] at ho
    obtain ⟨t, ht, ho⟩ := List.mem_flatMap.1 ho
    exact ih t ht (fitsAll_iff.1 h t ht).1 hΓ o ho
  | implies a b iha ihb =>
    intro Γ Δ bound h hΓ o ho
    rcases List.mem_append.1 ho with ho | ho
    · exact iha h.1.1 hΓ o ho
    · exact ihb h.2.1 hΓ o ho
  | quantified q binders body ih =>
    intro Γ Δ bound h hΓ
    -- a name that is free below the quantifier is none of its variables
    refine ih h.1 fun name s hname hΔ => ?_
    rw [List.mem_append, not_or] at hname
    exact hΓ name s hname.1 (hΔ.resolve_left hname.2)

/-! ## Simplification -/

/-- The sorts in `u` fit, and it is a formula exactly if `t` is one. -/
def FitsFor (Γ : Signature) (u t : Term) : Prop := u.Fits Γ ∧ (u.sort = .bool ↔ t.sort = .bool)

namespace FitsFor

variable {Γ : Signature} {u v w a b c : Term}

theorem number (h : FitsFor Γ u a) (ha : a.sort ≠ .bool) : u.FitsNumber Γ := ⟨h.1, fun hu => ha (h.2.1 hu)⟩

theorem formula (h : FitsFor Γ u a) (ha : a.sort = .bool) : u.FitsFormula Γ := ⟨h.1, h.2.2 ha⟩

theorem not (hu : FitsFor Γ u a) (ha : a.sort = .bool) : u.negated.FitsFormula Γ := by
  have hf := hu.formula ha
  unfold negated
  split
  · exact ⟨trivial, rfl⟩
  · exact hf.1
  · exact ⟨hf, rfl⟩

theorem implies (hu : FitsFor Γ u a) (hv : FitsFor Γ v b) (ha : a.sort = .bool) (hb : b.sort = .bool) :
    (u.implied v).FitsFormula Γ := by
  unfold implied
  split
  · exact ⟨trivial, rfl⟩
  · exact ⟨trivial, rfl⟩
  · exact hv.formula hb
  · exact ⟨⟨hu.formula ha, hv.formula hb⟩, rfl⟩

theorem ite (hw : FitsFor Γ w c) (hu : FitsFor Γ u a) (hv : FitsFor Γ v b) (hc : c.sort = .bool)
    (h : a.sort = .bool ↔ b.sort = .bool) : FitsFor Γ (w.chosen u v) (.ite c a b) := by
  rw [FitsFor, ite_sort_eq_bool_iff]
  unfold chosen
  split
  · exact hu
  · exact ⟨hv.1, hv.2.trans h.symm⟩
  · exact ⟨⟨hw.formula hc, hu.1, hv.1, hu.2.trans (h.trans hv.2.symm)⟩, (ite_sort_eq_bool_iff _ _ _).trans hu.2⟩

theorem quantified (q : Quantifier) (binders : List Binder) (hu : FitsFor (Γ.relax binders) u a)
    (ha : a.sort = .bool) : (u.bound q binders).FitsFormula Γ := by
  unfold bound
  split
  · exact ⟨trivial, rfl⟩
  · exact ⟨hu.formula ha, rfl⟩

end FitsFor

theorem fitsFormula_of_operands {Γ : Signature} {j : Junction} {u : Term} {us : List Term} (hu : u.FitsFormula Γ)
    (h : j.operands u = some us) : ∀ t ∈ us, t.FitsFormula Γ := by
  unfold Junction.operands at h
  split at h
  · split at h
    · cases h; exact List.forall_mem_nil _
    · cases h
  · split at h
    · cases h; exact fitsAll_iff.1 hu.1
    · cases h; exact List.forall_mem_singleton.2 hu
  · cases h; exact List.forall_mem_singleton.2 hu

theorem fitsFormula_simplifyOperands {Γ : Signature} {j : Junction} : ∀ {ts us : List Term},
    (∀ t ∈ ts, t.simplify.FitsFormula Γ) → simplifyOperands j ts = some us → ∀ u ∈ us, u.FitsFormula Γ
  | [], us, _, h => by
    rw [simplifyOperands] at h
    cases h
    exact List.forall_mem_nil _
  | t :: ts, us, hts, h => by
    rw [List.forall_mem_cons] at hts
    rw [simplifyOperands] at h
    cases hop : j.operands t.simplify with
    | none => rw [hop] at h; cases h
    | some vs =>
      rw [hop] at h
      obtain ⟨rest, hrest, rfl⟩ := Option.map_eq_some_iff.1 h
      exact List.forall_mem_append.2 ⟨fitsFormula_of_operands hts.1 hop, fitsFormula_simplifyOperands hts.2 hrest⟩

theorem fitsFormula_close {Γ : Signature} {j : Junction} {us : List Term} (h : ∀ u ∈ us, u.FitsFormula Γ) :
    (j.close us).FitsFormula Γ := by
  rcases us with _ | ⟨u, _ | ⟨v, us⟩⟩
  · exact ⟨trivial, rfl⟩
  · exact h u (List.mem_cons_self ..)
  · exact ⟨fitsAll_iff.2 h, rfl⟩

/-- Simplification keeps sorts fitting, and formulas formulas. -/
theorem simplify_fits (t : Term) : ∀ {Γ : Signature}, t.Fits Γ → FitsFor Γ t.simplify t := by
  induction t with
  | const name s => exact fun h => ⟨h, Iff.rfl⟩
  | bool b => exact fun h => ⟨h, Iff.rfl⟩
  | int n => exact fun h => ⟨h, Iff.rfl⟩
  | real q => exact fun h => ⟨h, Iff.rfl⟩
  | arith op a b iha ihb =>
    exact fun h => ⟨⟨(iha h.1.1).number h.1.2, (ihb h.2.1).number h.2.2⟩,
      iff_of_false (arith_sort_ne_bool op _ _) (arith_sort_ne_bool op a b)⟩
  | div a b iha ihb | compare op a b iha ihb =>
    exact fun h => ⟨⟨(iha h.1.1).number h.1.2, (ihb h.2.1).number h.2.2⟩, Iff.rfl⟩
  | neg a ih => exact fun h => ⟨(ih h.1).number h.2, (ih h.1).2⟩
  | ite c a b ihc iha ihb => exact fun h => (ihc h.1.1).ite (iha h.2.1) (ihb h.2.2.1) h.1.2 h.2.2.2
  | eq a b iha ihb =>
    exact fun h => ⟨⟨(iha h.1).1, (ihb h.2.1).1, (iha h.1).2.trans (h.2.2.trans (ihb h.2.1).2.symm)⟩, Iff.rfl⟩
  | junction j ts ih =>
    intro Γ h
    have hts : ∀ t ∈ ts, t.simplify.FitsFormula Γ := fun t ht =>
      (ih t ht (fitsAll_iff.1 h t ht).1).formula (fitsAll_iff.1 h t ht).2
    have hformula : (simplify (junction j ts)).FitsFormula Γ := by
      rw [simplify]
      split
      · rename_i us hus
        exact fitsFormula_close (fitsFormula_simplifyOperands hts hus)
      · exact ⟨trivial, rfl⟩
    exact ⟨hformula.1, iff_of_true hformula.2 rfl⟩
  | not a ih =>
    intro Γ h
    have hformula := (ih h.1).not h.2
    exact ⟨hformula.1, iff_of_true hformula.2 rfl⟩
  | implies a b iha ihb =>
    intro Γ h
    have hformula := (iha h.1.1).implies (ihb h.2.1) h.1.2 h.2.2
    exact ⟨hformula.1, iff_of_true hformula.2 rfl⟩
  | quantified q binders body ih =>
    intro Γ h
    have hformula := (ih h.1).quantified q binders h.2
    exact ⟨hformula.1, iff_of_true hformula.2 rfl⟩

end Term

end RoadPolicy
