/-
Renaming the constants and bound variables of a term. It changes neither sorts nor the shape of a
term, so it commutes with simplification. A tidy term is renamed alike by two renamings that agree
on the names that may occur in it.
-/
import RoadPolicy.Proofs.Formula.BoundNames

namespace RoadPolicy

def Binder.rename (f : String → String) (b : Binder) : Binder := ⟨f b.name, b.sort⟩

namespace Term

mutual

/-- The term with every name replaced, free or bound. -/
def rename (f : String → String) : Term → Term
  | const name s => const (f name) s
  | bool b => bool b
  | int n => int n
  | real q => real q
  | arith op a b => arith op (a.rename f) (b.rename f)
  | div a b => div (a.rename f) (b.rename f)
  | neg a => neg (a.rename f)
  | ite c a b => ite (c.rename f) (a.rename f) (b.rename f)
  | eq a b => eq (a.rename f) (b.rename f)
  | compare op a b => compare op (a.rename f) (b.rename f)
  | junction j ts => junction j (renameAll f ts)
  | not a => not (a.rename f)
  | implies a b => implies (a.rename f) (b.rename f)
  | quantified q binders body => quantified q (binders.map (Binder.rename f)) (body.rename f)

def renameAll (f : String → String) : List Term → List Term
  | [] => []
  | t :: ts => t.rename f :: renameAll f ts

end

section

variable (f : String → String)

theorem renameAll_eq (ts : List Term) : renameAll f ts = ts.map (rename f) := by
  induction ts with
  | nil => rfl
  | cons t ts ih => rw [renameAll, ih, List.map_cons]

@[simp] theorem rename_junction (j : Junction) (ts : List Term) :
    (junction j ts).rename f = junction j (ts.map (rename f)) := congrArg (junction j) (renameAll_eq f ts)

@[simp] theorem rename_and (ts : List Term) : (and ts).rename f = and (ts.map (rename f)) := rename_junction f .conj ts

@[simp] theorem rename_or (ts : List Term) : (or ts).rename f = or (ts.map (rename f)) := rename_junction f .disj ts

@[simp] theorem sort_rename (t : Term) : (t.rename f).sort = t.sort := by
  induction t with
  | const | bool | int | real | div | eq | compare | junction | not | implies | quantified => rfl
  | arith op a b iha ihb => rw [rename, sort, sort, iha, ihb]
  | neg a ih => exact ih
  | ite c a b ihc iha ihb => rw [rename, sort, sort, iha, ihb]

end

/-! ## Simplification -/

section

variable (f : String → String)

theorem rename_close (j : Junction) (ts : List Term) : j.close (ts.map (rename f)) = (j.close ts).rename f := by
  rcases ts with _ | ⟨t, _ | ⟨u, us⟩⟩
  · rfl
  · rfl
  · exact (rename_junction f j (t :: u :: us)).symm

theorem rename_operands (j : Junction) (t : Term) :
    j.operands (t.rename f) = (j.operands t).map (List.map (rename f)) := by
  cases t with
  | bool b =>
    show (if b = j.unit then some [] else none) = (if b = j.unit then some [] else none).map (List.map (rename f))
    split <;> rfl
  | junction k ts =>
    rw [rename_junction]
    show (if k = j then some (ts.map (rename f)) else some [junction k (ts.map (rename f))]) =
      (if k = j then some ts else some [junction k ts]).map (List.map (rename f))
    split
    · rfl
    · rw [Option.map_some, List.map_singleton, rename_junction]
  | const | int | real | arith | div | neg | ite | eq | compare | not | implies | quantified => rfl

theorem rename_negated (a : Term) : (a.rename f).negated = a.negated.rename f := by
  cases a with
  | junction j ts =>
    rw [rename_junction]
    exact congrArg not (rename_junction f j ts).symm
  | const | bool | int | real | arith | div | neg | ite | eq | compare | not | implies | quantified => rfl

theorem rename_bound (q : Quantifier) (binders : List Binder) (a : Term) :
    (a.rename f).bound q (binders.map (Binder.rename f)) = (a.bound q binders).rename f := by
  cases a with
  | const | bool | int | real | arith | div | neg | ite | eq | compare | not | implies | quantified | junction => rfl

theorem rename_implied (a b : Term) : (a.rename f).implied (b.rename f) = (a.implied b).rename f := by
  cases a with
  | bool x =>
    cases x with
    | false => rfl
    | true =>
      cases b with
      | bool y => cases y <;> rfl
      | const | int | real | arith | div | neg | ite | eq | compare | not | implies | quantified | junction => rfl
  | const | int | real | arith | div | neg | ite | eq | compare | not | implies | quantified | junction =>
    cases b with
    | bool y => cases y <;> rfl
    | const | int | real | arith | div | neg | ite | eq | compare | not | implies | quantified | junction => rfl

theorem rename_chosen (c a b : Term) : (c.rename f).chosen (a.rename f) (b.rename f) = (c.chosen a b).rename f := by
  cases c with
  | bool x => cases x <;> rfl
  | const | int | real | arith | div | neg | ite | eq | compare | not | implies | quantified | junction => rfl

theorem rename_simplifyOperands (j : Junction) : ∀ {ts : List Term},
    (∀ t ∈ ts, (t.rename f).simplify = t.simplify.rename f) →
      simplifyOperands j (ts.map (rename f)) = (simplifyOperands j ts).map (List.map (rename f))
  | [], _ => rfl
  | t :: ts, h => by
    rw [List.forall_mem_cons] at h
    rw [List.map_cons, simplifyOperands, simplifyOperands, h.1, rename_operands]
    rcases j.operands t.simplify with _ | us
    · rfl
    · rw [Option.map_some, rename_simplifyOperands j h.2]
      rcases simplifyOperands j ts with _ | vs
      · rfl
      · simp only [Option.map_some, List.map_append]

/-- Simplification does not look at names. -/
theorem simplify_rename (t : Term) : (t.rename f).simplify = t.simplify.rename f := by
  induction t with
  | const | bool | int | real => simp only [rename, simplify]
  | arith op a b iha ihb | div a b iha ihb | eq a b iha ihb | compare op a b iha ihb =>
    simp only [rename, simplify, iha, ihb]
  | neg a ih => simp only [rename, simplify, ih]
  | ite c a b ihc iha ihb => rw [rename, simplify, simplify, ihc, iha, ihb, rename_chosen]
  | junction j ts ih =>
    rw [rename_junction, simplify, simplify, rename_simplifyOperands f j ih]
    rcases simplifyOperands j ts with _ | us
    · rfl
    · exact rename_close f j us
  | not a ih => rw [rename, simplify, simplify, ih, rename_negated]
  | implies a b iha ihb => rw [rename, simplify, simplify, iha, ihb, rename_implied]
  | quantified q binders body ih => rw [rename, simplify, simplify, ih, rename_bound]

end

/-! ## Renamings that agree -/

theorem rename_id (t : Term) : t.rename id = t := by
  induction t with
  | const | bool | int | real => rfl
  | arith op a b iha ihb | div a b iha ihb | eq a b iha ihb | compare op a b iha ihb | implies a b iha ihb =>
    rw [rename, iha, ihb]
  | neg a ih | not a ih => rw [rename, ih]
  | ite c a b ihc iha ihb => rw [rename, ihc, iha, ihb]
  | junction j ts ih => rw [rename_junction, List.map_congr_left ih, List.map_id']
  | quantified q binders body ih =>
    rw [rename, ih]
    exact congrArg (quantified q · body) (List.map_id' binders)

/-- Two renamings that agree on the names of a term rename it alike. -/
theorem rename_congr {f g : String → String} {t : Term}
    (h : ∀ name ∈ t.constNames ++ t.boundNames, f name = g name) : t.rename f = t.rename g := by
  have hroot : t.Everywhere fun s =>
      (∀ name, s.constName? = some name → f name = g name) ∧ ∀ b ∈ s.ownBinders, f b.name = g b.name := by
    intro s hs
    refine ⟨fun name hname => h name (List.mem_append_left _ ?_), fun b hb => h b.name (List.mem_append_right _ ?_)⟩
    · exact mem_constNames_iff.2 ⟨s, hs, hname⟩
    · exact mem_boundNames_iff.2 ⟨s, hs, b, hb, rfl⟩
  clear h
  induction t with
  | const name s => rw [rename, rename, (everywhere_const.1 hroot).1 name rfl]
  | bool | int | real => rfl
  | arith op a b iha ihb =>
    rw [everywhere_arith] at hroot
    rw [rename, rename, iha hroot.2.1, ihb hroot.2.2]
  | div a b iha ihb =>
    rw [everywhere_div] at hroot
    rw [rename, rename, iha hroot.2.1, ihb hroot.2.2]
  | neg a ih =>
    rw [everywhere_neg] at hroot
    rw [rename, rename, ih hroot.2]
  | ite c a b ihc iha ihb =>
    rw [everywhere_ite] at hroot
    rw [rename, rename, ihc hroot.2.1, iha hroot.2.2.1, ihb hroot.2.2.2]
  | eq a b iha ihb =>
    rw [everywhere_eq] at hroot
    rw [rename, rename, iha hroot.2.1, ihb hroot.2.2]
  | compare op a b iha ihb =>
    rw [everywhere_compare] at hroot
    rw [rename, rename, iha hroot.2.1, ihb hroot.2.2]
  | junction j ts ih =>
    rw [everywhere_junction] at hroot
    rw [rename_junction, rename_junction, List.map_congr_left fun t ht => ih t ht (hroot.2 t ht)]
  | not a ih =>
    rw [everywhere_not] at hroot
    rw [rename, rename, ih hroot.2]
  | implies a b iha ihb =>
    rw [everywhere_implies] at hroot
    rw [rename, rename, iha hroot.2.1, ihb hroot.2.2]
  | quantified q binders body ih =>
    rw [everywhere_quantified] at hroot
    have hmap : binders.map (Binder.rename f) = binders.map (Binder.rename g) :=
      List.map_congr_left fun b hb => congrArg (Binder.mk · b.sort) (hroot.1.2 b hb)
    rw [rename, rename, hmap, ih hroot.2]

/-- Two renamings that agree on the names without a mark and on all names that may be bound agree on tidy terms. -/
theorem Tidy.rename_congr {f g : String → String} {D : Discipline} (hfree : ∀ name, '!' ∉ name.toList → f name = g name)
    (hD : ∀ outer binders, D outer binders → ∀ b ∈ binders, f b.name = g b.name) {t : Term} {bound : List String}
    (hbound : ∀ name ∈ bound, f name = g name) (h : t.Tidy D bound) : t.rename f = t.rename g := by
  induction t generalizing bound with
  | const name s =>
    -- a marked constant is bound by a quantifier around it
    have hname : f name = g name := by
      by_cases hmark : '!' ∈ name.toList
      · exact hbound name (h hmark)
      · exact hfree name hmark
    rw [rename, rename, hname]
  | bool | int | real => rfl
  | arith op a b iha ihb | div a b iha ihb | eq a b iha ihb | compare op a b iha ihb | implies a b iha ihb =>
    rw [rename, rename, iha hbound h.1, ihb hbound h.2]
  | neg a ih | not a ih => rw [rename, rename, ih hbound h]
  | ite c a b ihc iha ihb => rw [rename, rename, ihc hbound h.1, iha hbound h.2.1, ihb hbound h.2.2]
  | junction j ts ih =>
    rw [tidy_junction] at h
    rw [rename_junction, rename_junction, List.map_congr_left fun t ht => ih t ht hbound (h t ht)]
  | quantified q binders body ih =>
    have hbinders := hD _ _ h.1
    have hmap : binders.map (Binder.rename f) = binders.map (Binder.rename g) :=
      List.map_congr_left fun b hb => congrArg (Binder.mk · b.sort) (hbinders b hb)
    have hinner : ∀ name ∈ bound ++ binders.map (·.name), f name = g name :=
      List.forall_mem_append.2 ⟨hbound, List.forall_mem_map.2 hbinders⟩
    rw [rename, rename, hmap, ih hinner h.2]

end Term

end RoadPolicy
