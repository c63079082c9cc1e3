/-
The names of fresh points: the point with a number has two coordinates, whose names show the number.
Given terms capture only finitely many of them. A renumbering changes the number in such names and leaves
all other names alone.
-/
import RoadPolicy.Proofs.Number.DecimalValue
import RoadPolicy.Proofs.Road.Relations

namespace RoadPolicy

/-- The names of the coordinates of the point with a number. -/
def coordinates (n : Nat) : List String := ["q!" ++ toString n ++ "_l", "q!" ++ toString n ++ "_s"]

theorem names_binders (names : NameSupply) :
    (Point.binders names.nextPoint).map (·.name) = coordinates names.issued := rfl

theorem mark_mem_coordinates {n : Nat} {name : String} (h : name ∈ coordinates n) : '!' ∈ name.toList := by
  rw [coordinates, List.mem_pair] at h
  rcases h with rfl | rfl <;> simp

/-- The number in a name. -/
def numberIn (name : String) : Nat := ofDigits ((name.toList.drop 2).takeWhile Char.isDigit)

theorem numberIn_eq {n : Nat} {name : String} (h : name ∈ coordinates n) : numberIn name = n := by
  have hdigits := (isDigits_toString n).2
  have hshape : ∃ cs, name.toList.drop 2 = (toString n).toList ++ '_' :: cs := by
    rw [coordinates, List.mem_pair] at h
    rcases h with rfl | rfl
    · exact ⟨['l'], by simp [String.toList_append]⟩
    · exact ⟨['s'], by simp [String.toList_append]⟩
  obtain ⟨cs, hcs⟩ := hshape
  have hstop : ('_' :: cs).takeWhile Char.isDigit = [] := rfl
  rw [numberIn, hcs, List.takeWhile_append_of_pos hdigits, hstop, List.append_nil, ofDigits_toString]

theorem coordinates_injective : Function.Injective coordinates := by
  intro n m h
  have hmem : "q!" ++ toString n ++ "_l" ∈ coordinates n := List.mem_cons_self
  rw [← numberIn_eq hmem]
  rw [h] at hmem
  exact numberIn_eq hmem

theorem coordinate_ne (n : Nat) : "q!" ++ toString n ++ "_s" ≠ "q!" ++ toString n ++ "_l" :=
  (coordinates_ne ("q!" ++ toString n)).symm

/-- Terms mention only so many names, so from some number on their constants are never captured. -/
theorem exists_allSpare (ts : List Term) :
    ∃ n, ∀ names : NameSupply, n ≤ names.issued → AllSpare names.nextPoint ts := by
  let occurring := ts.flatMap fun t => (t.freeOccurrences []).map Prod.fst
  obtain ⟨n, hn⟩ := (occurring.map numberIn).toFinset.exists_le
  have hbound : ∀ name ∈ occurring, numberIn name ≤ n := fun name hname =>
    hn _ (List.mem_toFinset.2 (List.mem_map_of_mem hname))
  refine ⟨n + 1, fun names hnames t ht => ?_⟩
  have hspared : ∀ name ∈ coordinates names.issued, t.NotFree name := by
    intro name hname s hs
    have hle := hbound name (List.mem_flatMap.2 ⟨t, ht, List.mem_map.2 ⟨(name, s), hs, rfl⟩⟩)
    rw [numberIn_eq hname] at hle
    omega
  exact ⟨hspared _ List.mem_cons_self, hspared _ (List.mem_cons_of_mem _ List.mem_cons_self)⟩

/-! ## Renumbering -/

/-- A name with its number changed, if it is a coordinate of a point with a number. -/
def renumber (ρ : Nat → Nat) (name : String) : String :=
  let n := numberIn name
  if name = "q!" ++ toString n ++ "_l" then "q!" ++ toString (ρ n) ++ "_l"
  else if name = "q!" ++ toString n ++ "_s" then "q!" ++ toString (ρ n) ++ "_s"
  else name

/-- A renumbering takes the coordinates of a point to those of another one. -/
theorem map_renumber_coordinates (ρ : Nat → Nat) (n : Nat) : (coordinates n).map (renumber ρ) = coordinates (ρ n) := by
  have hl : renumber ρ ("q!" ++ toString n ++ "_l") = "q!" ++ toString (ρ n) ++ "_l" := by
    rw [renumber, numberIn_eq (n := n) (by simp [coordinates]), if_pos rfl]
  have hs : renumber ρ ("q!" ++ toString n ++ "_s") = "q!" ++ toString (ρ n) ++ "_s" := by
    rw [renumber, numberIn_eq (n := n) (by simp [coordinates]), if_neg (coordinate_ne n), if_pos rfl]
  rw [coordinates, List.map_cons, List.map_singleton, hl, hs, coordinates]

theorem renumber_of_unmarked {ρ : Nat → Nat} {name : String} (h : '!' ∉ name.toList) : renumber ρ name = name := by
  have hne : ∀ n, name ∉ coordinates n := fun n hn => h (mark_mem_coordinates hn)
  have hpair := hne (numberIn name)
  rw [coordinates, List.mem_pair, not_or] at hpair
  rw [renumber, if_neg hpair.1, if_neg hpair.2]

/-- A name that carries no mark, or the number of a point below a limit. -/
def NumberedBelow (limit : Nat) (name : String) : Prop := '!' ∉ name.toList ∨ ∃ n < limit, name ∈ coordinates n

theorem renumber_congr {ρ ρ' : Nat → Nat} {limit : Nat} (h : ∀ n < limit, ρ n = ρ' n) {name : String}
    (hname : NumberedBelow limit name) : renumber ρ name = renumber ρ' name := by
  rcases hname with hname | ⟨n, hn, hname⟩
  · rw [renumber_of_unmarked hname, renumber_of_unmarked hname]
  · rw [renumber, renumber, numberIn_eq hname, h n hn]

end RoadPolicy
