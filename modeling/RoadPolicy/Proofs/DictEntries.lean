/-
Maps by their entries: a map binds a name to a value exactly if it lists the two.
-/
import Mathlib.Tactic
import RoadPolicy.Dict

namespace RoadPolicy

namespace Dict

variable {α : Type}

theorem find?_eq_none_of_lt {name : String} : ∀ {l : List (String × α)}, (∀ e ∈ l, name < e.1) → find? name l = none
  | [], _ => rfl
  | (k, v) :: rest, h => by
    rw [List.forall_mem_cons] at h
    have hne : k ≠ name := by
      rintro rfl
      exact String.lt_irrefl _ h.1
    rw [find?, if_neg hne]
    exact find?_eq_none_of_lt h.2

theorem find?_eq_some_iff {name : String} {value : α} : ∀ {l : List (String × α)},
    (l.Pairwise fun a b => a.1 < b.1) → (find? name l = some value ↔ (name, value) ∈ l)
  | [], _ => by simp [find?]
  | (k, v) :: rest, h => by
    obtain ⟨hk, hrest⟩ := List.pairwise_cons.1 h
    rw [find?, List.mem_cons, Prod.mk.injEq]
    by_cases hname : k = name
    · subst hname
      rw [if_pos rfl, Option.some.injEq, ← find?_eq_some_iff hrest, find?_eq_none_of_lt hk]
      simp [eq_comm]
    · rw [if_neg hname, find?_eq_some_iff hrest]
      simp [Ne.symm hname]

/-- A map binds a name to a value exactly if it lists them. -/
theorem get?_eq_some_iff {d : Dict α} {name : String} {value : α} :
    d.get? name = some value ↔ (name, value) ∈ d.entries := find?_eq_some_iff d.increasing

theorem nodup_keys (d : Dict α) : (d.entries.map Prod.fst).Nodup :=
  List.pairwise_map.2 (d.increasing.imp fun h => String.ne_of_lt h)

/-- Maps that bind the same names to the same values are equal. -/
theorem eq_of_get?_eq {d e : Dict α} (h : ∀ name, d.get? name = e.get? name) : d = e := by
  have hmem : ∀ b, b ∈ d.entries ↔ b ∈ e.entries := by
    rintro ⟨name, value⟩
    rw [← get?_eq_some_iff, ← get?_eq_some_iff, h]
  have hirrefl : Std.Irrefl fun a b : String × α => a.1 < b.1 := ⟨fun a => String.lt_irrefl a.1⟩
  have hanti : Std.Antisymm fun a b : String × α => a.1 < b.1 :=
    ⟨fun _ _ hab hba => absurd (String.lt_trans hab hba) (String.lt_irrefl _)⟩
  have hentries := List.Pairwise.eq_of_mem_iff d.increasing e.increasing hmem
  cases d
  cases e
  cases hentries
  rfl

theorem insert_comm (d : Dict α) {name other : String} (h : name ≠ other) (v w : α) :
    (d.insert name v).insert other w = (d.insert other w).insert name v := by
  refine eq_of_get?_eq fun n => ?_
  simp only [get?_insert]
  by_cases hname : name = n
  · have hother : other ≠ n := fun hother => h (hname.trans hother.symm)
    rw [if_neg hother, if_pos hname, if_pos hname]
  · rw [if_neg hname, if_neg hname]

/-- Where no name is bound twice, the order of the bindings does not matter. -/
theorem foldl_insert_perm {l m : List (String × α)} (h : l.Perm m) (hkeys : (l.map Prod.fst).Nodup) (d : Dict α) :
    l.foldl (fun d e => d.insert e.1 e.2) d = m.foldl (fun d e => d.insert e.1 e.2) d := by
  refine h.foldl_eq' (fun b hb c hc d => ?_) d
  by_cases hname : b.1 = c.1
  · rw [List.inj_on_of_nodup_map hkeys hb hc hname]
  · exact d.insert_comm hname b.2 c.2

theorem isEmpty_iff {d : Dict α} : d.isEmpty = true ↔ d.entries = [] := List.isEmpty_iff

theorem isEmpty_insert (d : Dict α) (name : String) (value : α) : (d.insert name value).isEmpty = false := by
  rw [Bool.eq_false_iff, Ne, isEmpty_iff]
  intro h
  have hmem := get?_eq_some_iff.1 ((d.get?_insert name name value).trans (if_pos rfl))
  rw [h] at hmem
  cases hmem

theorem mem_of_get?_foldl_insert {name : String} {v : α} : ∀ (l : List (String × α)) (d : Dict α),
    (l.foldl (fun d e => d.insert e.1 e.2) d).get? name = some v → d.get? name = some v ∨ (name, v) ∈ l
  | [], d, h => .inl h
  | e :: l, d, h => by
    rcases mem_of_get?_foldl_insert l (d.insert e.1 e.2) h with h | h
    · rw [get?_insert] at h
      split at h
      · rename_i hname
        cases h
        exact .inr (hname ▸ List.mem_cons_self ..)
      · exact .inl h
    · exact .inr (List.mem_cons_of_mem _ h)

/-! ## Changed values -/

section

variable {β : Type} (f : α → β)

theorem place_map (name : String) (value : α) (l : List (String × α)) :
    place name (f value) (l.map fun e => (e.1, f e.2)) = (place name value l).map fun e => (e.1, f e.2) := by
  induction l with
  | nil => rfl
  | cons e rest ih =>
    obtain ⟨k, v⟩ := e
    rw [List.map_cons, place, place]
    split
    · rfl
    · split
      · rfl
      · rw [ih, List.map_cons]

theorem map_insert (d : Dict α) (name : String) (value : α) :
    (d.insert name value).map f = (d.map f).insert name (f value) := by
  simp only [map, insert, place_map]

theorem get?_map (d : Dict α) (name : String) : (d.map f).get? name = (d.get? name).map f := by
  have hfind : ∀ l : List (String × α), find? name (l.map fun e => (e.1, f e.2)) = (find? name l).map f := by
    intro l
    induction l with
    | nil => rfl
    | cons e rest ih =>
      obtain ⟨k, v⟩ := e
      rw [List.map_cons, find?, find?]
      split
      · rfl
      · exact ih
  exact hfind d.entries

end

end Dict

end RoadPolicy
