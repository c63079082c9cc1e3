/-
Blank characters. The policy language ignores every character with the Unicode property
White_Space, wherever it stands, also inside a word; the table below is that property.
-/
namespace RoadPolicy

/-- The code points with the property White_Space, as inclusive ranges in increasing order. -/
def blankRanges : List (Nat × Nat) :=
  [(0x09, 0x0D), (0x20, 0x20), (0x85, 0x85), (0xA0, 0xA0), (0x1680, 0x1680), (0x2000, 0x200A),
    (0x2028, 0x2029), (0x202F, 0x202F), (0x205F, 0x205F), (0x3000, 0x3000)]

/-- A character with the property White_Space. -/
def isBlank (c : Char) : Bool :=
  blankRanges.any fun r => r.1 ≤ c.toNat && c.toNat ≤ r.2

/-- The table lists 25 characters. -/
theorem blankRanges_count : blankRanges.foldl (fun n r => n + (r.2 + 1 - r.1)) 0 = 25 := by decide

/-- Every character that the standard library calls whitespace is blank. -/
theorem isBlank_of_isWhitespace {c : Char} (h : c.isWhitespace = true) : isBlank c = true := by
  simp only [Char.isWhitespace, Bool.or_eq_true, decide_eq_true_eq] at h
  rcases h with ((rfl | rfl) | rfl) | rfl <;> decide

end RoadPolicy
