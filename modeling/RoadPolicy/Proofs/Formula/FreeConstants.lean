/-
The free constants of a term, operator by operator: a term mentions what its operands mention, and a
quantifier takes away the names that it binds, wherever it stands.
-/
import RoadPolicy.Proofs.Formula.Meaning

namespace RoadPolicy

namespace Term

/-- The constant occurs free in the term, with this sort. -/
def Mentions (t : Term) (c : String × TermSort) : Prop := c ∈ t.freeOccurrences []

variable {a b t : Term} {c : String × TermSort}

/-- The names that are bound outside only take away from what is free. -/
theorem mem_freeOccurrences_iff : ∀ bound : List String,
    c ∈ t.freeOccurrences bound ↔ t.Mentions c ∧ c.1 ∉ bound := by
  unfold Mentions
  induction t with
  | const name s =>
    intro bound
    by_cases hname : name ∈ bound
    · simp only [freeOccurrences, if_pos hname, List.not_mem_nil, if_false, List.mem_singleton, false_iff, not_and,
        not_not]
      rintro rfl
      exact hname
    · simp only [freeOccurrences, if_neg hname, List.not_mem_nil, if_false, List.mem_singleton]
      constructor
      · rintro rfl
        exact ⟨rfl, hname⟩
      · intro h
        exact h.1
  | bool v | int n | real q => simp [freeOccurrences]
  | arith op a b iha ihb | div a b iha ihb | eq a b iha ihb | compare op a b iha ihb | implies a b iha ihb =>
    intro bound
    simp only [freeOccurrences, List.mem_append, iha bound, ihb bound]
    tauto
  | neg a ih | not a ih => exact ih
  | ite d a b ihd iha ihb =>
    intro bound
    simp only [freeOccurrences, List.mem_append, ihd bound, iha bound, ihb bound]
    tauto
  | junction j ts ih =>
    intro bound
    simp only [freeOccurrences, freeOccurrencesAll_eq, List.mem_flatMap]
    constructor
    · rintro ⟨t, ht, hc⟩
      exact ⟨⟨t, ht, ((ih t ht bound).1 hc).1⟩, ((ih t ht bound).1 hc).2⟩
    · rintro ⟨⟨t, ht, hc⟩, hbound⟩
      exact ⟨t, ht, (ih t ht bound).2 ⟨hc, hbound⟩⟩
  | quantified q binders body ih =>
    intro bound
    -- the names bound here are taken away on both sides
    have hhere := ih (binders.map (·.name))
    have hboth := ih (bound ++ binders.map (·.name))
    rw [List.mem_append, not_or] at hboth
    rw [freeOccurrences, freeOccurrences, List.nil_append, hboth, hhere]
    tauto

theorem mentions_quantified {q : Quantifier} {binders : List Binder} :
    (quantified q binders a).Mentions c ↔ a.Mentions c ∧ c.1 ∉ binders.map (·.name) := by
  show c ∈ a.freeOccurrences ([] ++ binders.map (·.name)) ↔ _
  exact mem_freeOccurrences_iff _

@[simp] theorem mentions_realConst {name : String} : (realConst name).Mentions c ↔ c = (name, .real) := by
  simp [Mentions, realConst, freeOccurrences]

@[simp] theorem mentions_int {n : Int} : (int n).Mentions c ↔ False := List.mem_nil_iff c

@[simp] theorem mentions_add : (a + b).Mentions c ↔ a.Mentions c ∨ b.Mentions c := List.mem_append

@[simp] theorem mentions_sub : (a - b).Mentions c ↔ a.Mentions c ∨ b.Mentions c := List.mem_append

@[simp] theorem mentions_mul : (a * b).Mentions c ↔ a.Mentions c ∨ b.Mentions c := List.mem_append

@[simp] theorem mentions_square : a.square.Mentions c ↔ a.Mentions c := mentions_mul.trans (or_self_iff)

@[simp] theorem mentions_neg : (-a).Mentions c ↔ a.Mentions c := Iff.rfl

@[simp] theorem mentions_eq : (eq a b).Mentions c ↔ a.Mentions c ∨ b.Mentions c := List.mem_append

@[simp] theorem mentions_le : (a.le b).Mentions c ↔ a.Mentions c ∨ b.Mentions c := List.mem_append

@[simp] theorem mentions_gt : (a.gt b).Mentions c ↔ a.Mentions c ∨ b.Mentions c := List.mem_append

@[simp] theorem mentions_ge : (a.ge b).Mentions c ↔ a.Mentions c ∨ b.Mentions c := List.mem_append

@[simp] theorem mentions_implies : (implies a b).Mentions c ↔ a.Mentions c ∨ b.Mentions c := List.mem_append

end Term

/-! ## Several terms -/

/-- The constant occurs free in one of the terms. -/
def Mentioned (ts : List Term) (c : String × TermSort) : Prop := ∃ t ∈ ts, t.Mentions c

section

variable {t : Term} {ts us : List Term} {c : String × TermSort}

@[simp] theorem mentioned_nil : Mentioned [] c ↔ False := by simp [Mentioned]

@[simp] theorem mentioned_cons : Mentioned (t :: ts) c ↔ t.Mentions c ∨ Mentioned ts c := by simp [Mentioned]

@[simp] theorem mentioned_append : Mentioned (ts ++ us) c ↔ Mentioned ts c ∨ Mentioned us c := by
  simp [Mentioned, or_and_right, exists_or]

@[simp] theorem Term.mentions_and : (Term.and ts).Mentions c ↔ Mentioned ts c := by
  unfold Mentions Mentioned
  rw [Term.and, freeOccurrences, freeOccurrencesAll_eq, List.mem_flatMap]
  rfl

@[simp] theorem Term.mentions_or : (Term.or ts).Mentions c ↔ Mentioned ts c := by
  unfold Mentions Mentioned
  rw [Term.or, freeOccurrences, freeOccurrencesAll_eq, List.mem_flatMap]
  rfl

/-- Some sort is listed for the name exactly if the name is mentioned with some sort. -/
theorem Term.contains_freeConsts_iff {t : Term} {name : String} :
    t.freeConsts.contains name = true ↔ ∃ s, t.Mentions (name, s) := t.freeConsts_contains_iff name

end

end RoadPolicy
