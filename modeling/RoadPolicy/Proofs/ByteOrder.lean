/-
The order of names. Names compare character by character, and their UTF-8 bytes compare the same way:
a longer code starts with a larger byte, and two codes of one length are numbers in base 64, written
with the largest digit first.
-/
import Mathlib.Tactic

namespace RoadPolicy

/-- The bytes of a text. -/
def utf8 (text : String) : List UInt8 := text.toUTF8.data.toList

theorem utf8_eq_flatMap (text : String) : utf8 text = text.toList.flatMap String.utf8EncodeChar := by
  have hofList : utf8 (String.ofList text.toList) = text.toList.flatMap String.utf8EncodeChar := by
    rw [utf8, String.toUTF8, String.toByteArray_ofList, List.utf8Encode, List.toList_data_toByteArray]
  rwa [String.ofList_toList] at hofList

/-- Of two numbers in base 64, the first digit in which they differ decides. -/
theorem digits_lt {v w : Nat} (h : v < w) : v / 262144 < w / 262144 ∨ v / 262144 = w / 262144 ∧
    (v / 4096 % 64 < w / 4096 % 64 ∨ v / 4096 % 64 = w / 4096 % 64 ∧
      (v / 64 % 64 < w / 64 % 64 ∨ v / 64 % 64 = w / 64 % 64 ∧ v % 64 < w % 64)) := by
  rcases Nat.lt_or_ge (v / 262144) (w / 262144) with hfirst | hfirst
  · exact .inl hfirst
  refine .inr ⟨by omega, ?_⟩
  rcases Nat.lt_or_ge (v / 4096) (w / 4096) with hsecond | hsecond
  · exact .inl (by omega)
  · exact .inr ⟨by omega, by omega⟩

/-- The code of a smaller character comes first, whatever follows. -/
theorem utf8EncodeChar_append_lt {c d : Char} (h : c < d) (l m : List UInt8) :
    String.utf8EncodeChar c ++ l < String.utf8EncodeChar d ++ m := by
  have hcd : c.val.toNat < d.val.toNat := h
  have hd : d.val.toNat < 0x110000 := by
    rcases d.valid with hlow | ⟨-, hhigh⟩
    · omega
    · exact hhigh
  unfold String.utf8EncodeChar
  generalize c.val.toNat = v at hcd ⊢
  generalize d.val.toNat = w at hcd hd ⊢
  dsimp only
  by_cases hlong : 65535 < v
  · -- four bytes each
    have hdigits := digits_lt hcd
    rw [if_neg (by omega), if_neg (by omega), if_neg (by omega), if_neg (by omega), if_neg (by omega),
      if_neg (by omega)]
    simp (disch := omega) only [List.cons_append, List.nil_append, List.cons_lt_cons_iff, UInt8.lt_iff_toNat_lt,
      ← UInt8.toNat_inj, UInt8.toNat_ofNat', Nat.reducePow, Nat.mod_eq_of_lt, Nat.add_lt_add_iff_right,
      Nat.add_right_cancel_iff]
    tauto
  · split_ifs
    all_goals
      simp only [List.cons_append, List.nil_append, List.cons_lt_cons_iff, UInt8.lt_iff_toNat_lt, ← UInt8.toNat_inj,
        UInt8.toNat_ofNat']
      omega

/-- Names that are in order are in order by their bytes. -/
theorem utf8_lt_of_lt {a b : String} (h : a < b) : utf8 a < utf8 b := by
  rw [utf8_eq_flatMap, utf8_eq_flatMap]
  have hlex := List.lex_lt.2 (String.lt_iff.1 h)
  generalize a.toList = cs at hlex ⊢
  generalize b.toList = ds at hlex ⊢
  induction hlex with
  | @nil d ds =>
    rw [List.flatMap_nil, List.flatMap_cons]
    rcases hcode : String.utf8EncodeChar d with _ | ⟨x, xs⟩
    · exact absurd hcode String.utf8EncodeChar_ne_nil
    · exact List.nil_lt_cons ..
  | cons _ ih =>
    rw [List.flatMap_cons, List.flatMap_cons]
    exact List.append_left_lt ih
  | rel hcd =>
    rw [List.flatMap_cons, List.flatMap_cons]
    exact utf8EncodeChar_append_lt hcd _ _

end RoadPolicy
