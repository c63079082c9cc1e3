/-
Integers rounded to 53 bits. The significand of a positive integer is found by scaling its leading
bit into place and rounding once, so the bits of the nearest double never fall as the integer grows.
Up to 2 ^ 53 nothing is lost and different integers have different bits; beyond, integers of 64 bits
with the same bits are at most 1024 apart.
-/
import Mathlib.Tactic
import RoadPolicy.Number.Nearest

namespace RoadPolicy

/-! ## Rounding a quotient -/

theorem twoTo_eq (k : Nat) : twoTo k = 2 ^ k := rfl

theorem roundHalfEven_le_succ (n d : Nat) : roundHalfEven n d ≤ n / d + 1 := by
  unfold roundHalfEven
  dsimp only
  split <;> omega

theorem le_roundHalfEven (n d : Nat) : n / d ≤ roundHalfEven n d := by
  unfold roundHalfEven
  dsimp only
  split <;> omega

theorem roundHalfEven_mono {a b d : Nat} (h : a ≤ b) : roundHalfEven a d ≤ roundHalfEven b d := by
  have hdiv : a / d ≤ b / d := Nat.div_le_div_right h
  by_cases hsame : a / d = b / d
  · have hmod : a % d ≤ b % d := by
      have ha := Nat.div_add_mod a d
      have hb := Nat.div_add_mod b d
      rw [hsame] at ha
      omega
    unfold roundHalfEven
    rw [hsame]
    generalize a % d = r at hmod
    generalize b % d = s at hmod
    generalize b / d = q
    simp only [Bool.or_eq_true, decide_eq_true_eq, Bool.and_eq_true, beq_iff_eq]
    split_ifs <;> omega
  · have := roundHalfEven_le_succ a d
    have := le_roundHalfEven b d
    omega

/-- Rounding moves a quotient by half a unit at most. -/
theorem roundHalfEven_near (n : Nat) {d : Nat} (hd : 0 < d) :
    2 * n ≤ 2 * (roundHalfEven n d * d) + d ∧ 2 * (roundHalfEven n d * d) ≤ 2 * n + d := by
  have hn := Nat.div_add_mod' n d
  have hmod := Nat.mod_lt n hd
  unfold roundHalfEven
  simp only [Bool.or_eq_true, decide_eq_true_eq, Bool.and_eq_true, beq_iff_eq]
  split
  · rw [Nat.add_mul]
    omega
  · omega

theorem roundHalfEven_one (n : Nat) : roundHalfEven n 1 = n := by
  simp [roundHalfEven, Nat.mod_one]

/-! ## Significands -/

section

variable {n m : Nat}

theorem log2_mono (h : m ≤ n) : m.log2 ≤ n.log2 := by
  rw [Nat.log2_eq_log_two, Nat.log2_eq_log_two]
  exact Nat.log_mono_right h

theorem log2_le_of_le {k : Nat} (h : n ≤ 2 ^ k) : n.log2 ≤ k := by
  calc n.log2 ≤ (2 ^ k).log2 := log2_mono h
    _ = k := Nat.log2_two_pow

/-- The place of the leading bit of an integer of at most 53 bits. -/
theorem log2_le_of_lt (h : n < 2 ^ 53) : n.log2 ≤ 52 := by
  by_cases hn : n = 0
  · subst hn
    decide
  · have := (Nat.log2_lt hn).2 h
    omega

/-- Scaled so that its leading bit is bit `w`, a positive integer is a number of `w + 1` bits and a
fraction. -/
theorem scaleDown_bounds (hn : n ≠ 0) (w : Nat) :
    twoTo w * (scaleDown n 1 (n.log2 - w)).2 ≤ (scaleDown n 1 (n.log2 - w)).1 ∧
      (scaleDown n 1 (n.log2 - w)).1 < twoTo (w + 1) * (scaleDown n 1 (n.log2 - w)).2 := by
  have hlow := Nat.log2_self_le hn
  have hhigh := Nat.lt_log2_self (n := n)
  simp only [scaleDown, twoTo_eq]
  split
  · rename_i hq
    have hk : n.log2 = w + ((n.log2 : Int) - w).toNat := by omega
    generalize ((n.log2 : Int) - w).toNat = k at hk
    rw [hk] at hlow hhigh
    rw [one_mul, ← pow_add, ← pow_add]
    exact ⟨hlow, by rwa [show w + 1 + k = w + k + 1 by omega]⟩
  · rename_i hq
    have hk : n.log2 + (-((n.log2 : Int) - w)).toNat = w := by omega
    generalize (-((n.log2 : Int) - w)).toNat = k at hk
    constructor
    · calc 2 ^ w * 1 = 2 ^ n.log2 * 2 ^ k := by rw [← pow_add, hk, mul_one]
        _ ≤ n * 2 ^ k := Nat.mul_le_mul_right _ hlow
    · calc n * 2 ^ k < 2 ^ (n.log2 + 1) * 2 ^ k := Nat.mul_lt_mul_of_pos_right hhigh (Nat.two_pow_pos k)
        _ = 2 ^ (w + 1) * 1 := by rw [← pow_add, show n.log2 + 1 + k = w + 1 by omega, mul_one]

theorem scaleDown_pos (n : Nat) (q : Int) : 0 < (scaleDown n 1 q).2 := by
  unfold scaleDown
  split
  · simp [twoTo_eq]
  · exact Nat.one_pos

/-- The last of the 53 bits of a positive integer. -/
theorem lastBitExponent_one (hn : n ≠ 0) : lastBitExponent n 1 = n.log2 - 52 := by
  have hbig : ¬ (scaleDown n 1 (n.log2 - 53)).1 / (scaleDown n 1 (n.log2 - 53)).2 < twoTo 53 := by
    rw [Nat.not_lt, Nat.le_div_iff_mul_le (scaleDown_pos n _)]
    exact (scaleDown_bounds hn 53).1
  have hone : Nat.log2 1 = 0 := by decide
  unfold lastBitExponent
  simp only [hone, Nat.cast_zero, sub_zero, hbig, if_false]
  omega

/-- The significand of 53 bits that a positive integer is rounded to. -/
def significand (n : Nat) : Nat :=
  roundHalfEven (scaleDown n 1 (n.log2 - 52)).1 (scaleDown n 1 (n.log2 - 52)).2

theorem significand_bounds (hn : n ≠ 0) : 2 ^ 52 ≤ significand n ∧ significand n ≤ 2 ^ 53 := by
  obtain ⟨hlow, hhigh⟩ := scaleDown_bounds hn 52
  rw [Nat.cast_ofNat] at hlow hhigh
  have hpos := scaleDown_pos n (n.log2 - 52)
  rw [twoTo_eq, ← Nat.le_div_iff_mul_le hpos] at hlow
  rw [twoTo_eq, ← Nat.div_lt_iff_lt_mul hpos] at hhigh
  have := le_roundHalfEven (scaleDown n 1 (n.log2 - 52)).1 (scaleDown n 1 (n.log2 - 52)).2
  have := roundHalfEven_le_succ (scaleDown n 1 (n.log2 - 52)).1 (scaleDown n 1 (n.log2 - 52)).2
  unfold significand
  omega

theorem significand_mono (hlog : m.log2 = n.log2) (h : m ≤ n) : significand m ≤ significand n := by
  have hnum : (scaleDown m 1 (n.log2 - 52)).1 ≤ (scaleDown n 1 (n.log2 - 52)).1 := by
    unfold scaleDown
    split
    · exact h
    · exact Nat.mul_le_mul_right _ h
  have hden : (scaleDown m 1 (n.log2 - 52)).2 = (scaleDown n 1 (n.log2 - 52)).2 := by
    unfold scaleDown
    split <;> rfl
  unfold significand
  rw [hlog, hden]
  exact roundHalfEven_mono hnum

/-- An integer of at most 53 bits loses nothing. -/
theorem significand_eq (h : n < 2 ^ 53) : significand n = n * 2 ^ (52 - n.log2) := by
  have hlog := log2_le_of_lt h
  unfold significand scaleDown
  split
  · have hk : n.log2 = 52 := by omega
    simp [hk, twoTo_eq, roundHalfEven_one]
  · have hk : (-((n.log2 : Int) - 52)).toNat = 52 - n.log2 := by omega
    rw [hk, roundHalfEven_one, twoTo_eq]

theorem significand_lt (h : n < 2 ^ 53) : significand n < 2 ^ 53 := by
  have hlog := log2_le_of_lt h
  rw [significand_eq h]
  calc n * 2 ^ (52 - n.log2) < 2 ^ (n.log2 + 1) * 2 ^ (52 - n.log2) :=
        Nat.mul_lt_mul_of_pos_right Nat.lt_log2_self (Nat.two_pow_pos _)
    _ = 2 ^ 53 := by rw [← pow_add, show n.log2 + 1 + (52 - n.log2) = 53 by omega]

/-- The significand is at most half a unit away from an integer of more bits. -/
theorem significand_near (h : 52 ≤ n.log2) :
    2 * n ≤ 2 * (significand n * 2 ^ (n.log2 - 52)) + 2 ^ (n.log2 - 52) ∧
      2 * (significand n * 2 ^ (n.log2 - 52)) ≤ 2 * n + 2 ^ (n.log2 - 52) := by
  have hscale : scaleDown n 1 (n.log2 - 52) = (n, 2 ^ (n.log2 - 52)) := by
    have hk : ((n.log2 : Int) - 52).toNat = n.log2 - 52 := by omega
    rw [scaleDown, if_pos (by omega), hk, one_mul, twoTo_eq]
  unfold significand
  rw [hscale]
  exact roundHalfEven_near n (Nat.two_pow_pos _)

/-! ## Bits -/

/-- The exponent field follows the leading bit. A significand that is rounded up to 2 ^ 53 carries
into it. -/
theorem magnitudeBits_one (hn : n ≠ 0) :
    magnitudeBits n 1 = min ((n.log2 + 1022) * 2 ^ 52 + significand n) (2047 * 2 ^ 52) := by
  have hq : ((n.log2 : Int) - 52 + 1074).toNat = n.log2 + 1022 := by omega
  unfold magnitudeBits
  rw [if_neg hn, lastBitExponent_one hn]
  show min (((n.log2 : Int) - 52 + 1074).toNat * twoTo 52 + significand n) infinityBits = _
  rw [hq]
  rfl

theorem magnitudeBits_mono (h : m ≤ n) : magnitudeBits m 1 ≤ magnitudeBits n 1 := by
  by_cases hm : m = 0
  · subst hm
    exact Nat.zero_le _
  have hn : n ≠ 0 := by omega
  rw [magnitudeBits_one hm, magnitudeBits_one hn]
  refine min_le_min_right _ ?_
  have hlogs := log2_mono h
  rcases hlogs.lt_or_eq with hlt | heq
  · have := (significand_bounds hm).2
    have := (significand_bounds hn).1
    omega
  · have := significand_mono heq h
    rw [heq]
    omega

/-- The doubles of the integers of 64 bits are finite and not subnormal. -/
theorem magnitudeBits_bounds (hn : n ≠ 0) (h : n ≤ 2 ^ 63) :
    2 ^ 52 ≤ magnitudeBits n 1 ∧ magnitudeBits n 1 < 2047 * 2 ^ 52 := by
  have hlog := log2_le_of_le h
  have hsig := significand_bounds hn
  rw [magnitudeBits_one hn]
  omega

/-- Up to 2 ^ 53 different integers have different doubles. -/
theorem magnitudeBits_lt (h : m < n) (hn : n ≤ 2 ^ 53) : magnitudeBits m 1 < magnitudeBits n 1 := by
  have hn0 : n ≠ 0 := by omega
  have hbounds := magnitudeBits_bounds hn0 (hn.trans (by decide))
  by_cases hm0 : m = 0
  · subst hm0
    exact Nat.lt_of_lt_of_le (by decide) hbounds.1
  have hm : m < 2 ^ 53 := by omega
  have hlogn := log2_le_of_le hn
  have hlogs := log2_mono h.le
  have hsigm := significand_lt hm
  have hsign := significand_bounds hn0
  rw [magnitudeBits_one hm0, magnitudeBits_one hn0]
  rcases hlogs.lt_or_eq with hlt | heq
  · omega
  · have hn' : n < 2 ^ 53 := by
      by_contra hge
      have hn2 : n = 2 ^ 53 := by omega
      have hlogm := log2_le_of_lt hm
      rw [heq, hn2, Nat.log2_two_pow] at hlogm
      omega
    have hsig : significand m < significand n := by
      rw [significand_eq hm, significand_eq hn', heq]
      exact Nat.mul_lt_mul_of_pos_right h (Nat.two_pow_pos _)
    omega

/-- Only integers of more than 53 bits share their bits with others. -/
theorem two_pow_le_of_magnitudeBits_eq (hmn : m < n) (h : magnitudeBits m 1 = magnitudeBits n 1) : 2 ^ 53 ≤ m := by
  by_contra hsmall
  have hsep := magnitudeBits_lt (show m < min n (2 ^ 53) by omega) (min_le_right _ _)
  have hle := magnitudeBits_mono (min_le_left n (2 ^ 53))
  omega

/-- Integers of 64 bits with the same bits are close to each other. -/
theorem le_add_of_magnitudeBits_eq (hmn : m < n) (hn : n ≤ 2 ^ 63) (h : magnitudeBits m 1 = magnitudeBits n 1) :
    n ≤ m + 1024 := by
  have hbig := two_pow_le_of_magnitudeBits_eq hmn h
  have hm0 : m ≠ 0 := by omega
  have hn0 : n ≠ 0 := by omega
  have hlogm : 53 ≤ m.log2 := (Nat.le_log2 hm0).2 hbig
  have hlogs := log2_mono hmn.le
  have hlogn := log2_le_of_le hn
  have hsigm := significand_bounds hm0
  have hsign := significand_bounds hn0
  obtain ⟨-, hm⟩ := significand_near (show 52 ≤ m.log2 by omega)
  obtain ⟨hn', -⟩ := significand_near (show 52 ≤ n.log2 by omega)
  rw [magnitudeBits_one hm0, magnitudeBits_one hn0] at h
  rcases hlogs.eq_or_lt with hlog | hlog
  · have hsig : significand m = significand n := by omega
    have hunit : 2 ^ (n.log2 - 52) ≤ 2 ^ 10 := by
      refine Nat.pow_le_pow_right (by decide) ?_
      by_contra hgt
      have hge := Nat.log2_self_le hm0
      rw [hlog, show n.log2 = 63 by omega] at hge
      omega
    rw [hlog, hsig] at hm
    omega
  · -- `m` rounds up to the power of two that `n` rounds down to
    have hnext : n.log2 - 52 = m.log2 - 52 + 1 := by omega
    rw [show significand m = 2 ^ 53 by omega] at hm
    rw [show significand n = 2 ^ 52 by omega, hnext, pow_succ] at hn'
    rcases Nat.lt_or_ge 9 (m.log2 - 52) with htop | hlow
    · rw [show m.log2 - 52 = 10 by omega] at hm
      omega
    · have hunit : 2 ^ (m.log2 - 52) ≤ 2 ^ 9 := Nat.pow_le_pow_right (by decide) hlow
      omega

end

end RoadPolicy
