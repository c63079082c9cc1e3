/-
Finite maps from names, listed in the order of the names. The list of entries is strictly
increasing, so two maps with the same bindings are equal, and walking a map always meets the names
in the same order. Names compare character by character, which is also the order of their UTF-8
bytes.
-/
namespace RoadPolicy

/-- A finite map from names. -/
structure Dict (α : Type) where
  entries : List (String × α)
  increasing : entries.Pairwise fun a b => a.1 < b.1

namespace Dict

variable {α β : Type}

instance [DecidableEq α] : DecidableEq (Dict α) := fun a b =>
  match decEq a.entries b.entries with
  | isTrue h => isTrue (by cases a; cases b; cases h; rfl)
  | isFalse h => isFalse fun e => h (congrArg entries e)

def empty : Dict α := ⟨[], .nil⟩

instance : Inhabited (Dict α) := ⟨empty⟩

/-! ## Lookup -/

/-- The value of a name in a list of entries. -/
def find? (name : String) : List (String × α) → Option α
  | [] => none
  | (k, v) :: rest => if k = name then some v else find? name rest

def get? (d : Dict α) (name : String) : Option α := find? name d.entries

def contains (d : Dict α) (name : String) : Bool := (d.get? name).isSome

def keys (d : Dict α) : List String := d.entries.map (·.1)

def size (d : Dict α) : Nat := d.entries.length

def isEmpty (d : Dict α) : Bool := d.entries.isEmpty

/-! ## Insertion -/

/-- Puts an entry in its place, over an older one of the same name. -/
def place (name : String) (value : α) : List (String × α) → List (String × α)
  | [] => [(name, value)]
  | (k, v) :: rest =>
    if name < k then (name, value) :: (k, v) :: rest
    else if name = k then (name, value) :: rest
    else (k, v) :: place name value rest

theorem key_of_mem_place {name : String} {value : α} {l : List (String × α)} {e : String × α}
    (h : e ∈ place name value l) : e.1 = name ∨ e ∈ l := by
  induction l with
  | nil =>
    rw [place, List.mem_singleton] at h
    exact .inl (h ▸ rfl)
  | cons p rest ih =>
    obtain ⟨k, v⟩ := p
    rw [place] at h
    split at h
    · rcases List.mem_cons.1 h with rfl | h
      · exact .inl rfl
      · exact .inr h
    · split at h
      · rcases List.mem_cons.1 h with rfl | h
        · exact .inl rfl
        · exact .inr (List.mem_cons_of_mem _ h)
      · rcases List.mem_cons.1 h with rfl | h
        · exact .inr (List.mem_cons_self ..)
        · exact (ih h).imp_right (List.mem_cons_of_mem _)

theorem place_increasing (name : String) (value : α) {l : List (String × α)}
    (h : l.Pairwise fun a b => a.1 < b.1) : (place name value l).Pairwise fun a b => a.1 < b.1 := by
  induction l with
  | nil => exact List.pairwise_singleton _ _
  | cons p rest ih =>
    obtain ⟨k, v⟩ := p
    obtain ⟨hk, hrest⟩ := List.pairwise_cons.1 h
    rw [place]
    split
    · rename_i hlt
      refine List.pairwise_cons.2 ⟨fun e he => ?_, h⟩
      rcases List.mem_cons.1 he with rfl | he
      · exact hlt
      · exact String.lt_trans hlt (hk e he)
    · rename_i hnlt
      split
      · rename_i heq
        subst heq
        exact List.pairwise_cons.2 ⟨hk, hrest⟩
      · rename_i hne
        refine List.pairwise_cons.2 ⟨fun e he => ?_, ih hrest⟩
        rcases key_of_mem_place he with he | he
        · rw [he]
          rcases Std.lt_trichotomy name k with hlt | rfl | hgt
          · exact absurd hlt hnlt
          · exact absurd rfl hne
          · exact hgt
        · exact hk e he

/-- The map with a name bound anew. -/
def insert (d : Dict α) (name : String) (value : α) : Dict α :=
  ⟨place name value d.entries, place_increasing name value d.increasing⟩

/-- The entries of a list, a later one over an earlier one of the same name. -/
def ofList (l : List (String × α)) : Dict α :=
  l.foldl (fun d e => d.insert e.1 e.2) empty

/-- All bindings of both maps; where both bind a name, those of the second. -/
def union (d e : Dict α) : Dict α :=
  e.entries.foldl (fun d e => d.insert e.1 e.2) d

/-- The same names with other values. -/
def map (f : α → β) (d : Dict α) : Dict β :=
  ⟨d.entries.map fun e => (e.1, f e.2),
    List.pairwise_map.2 (d.increasing.imp fun h => h)⟩

/-! ## Lookup after insertion -/

theorem find?_place (name other : String) (value : α) (l : List (String × α)) :
    find? other (place name value l) = if name = other then some value else find? other l := by
  induction l with
  | nil => simp [place, find?]
  | cons p rest ih =>
    obtain ⟨k, v⟩ := p
    rw [place]
    split
    · simp [find?]
    · split
      · rename_i heq
        subst heq
        by_cases h : name = other <;> simp [find?, h]
      · rename_i hne
        by_cases hk : k = other
        · have hno : name ≠ other := fun h => hne (h.trans hk.symm)
          simp [find?, hk, hno]
        · simp [find?, hk, ih]

@[simp] theorem get?_empty (name : String) : (empty : Dict α).get? name = none := rfl

/-- A name just bound has the new value, every other name the old one. -/
theorem get?_insert (d : Dict α) (name other : String) (value : α) :
    (d.insert name value).get? other = if name = other then some value else d.get? other :=
  find?_place name other value d.entries

end Dict

end RoadPolicy
