/-
The order of the doubles that stand for integers. The fields of a double that is neither zero nor
subnormal can be read off its bits, and doubles are compared as their bits are, with the sign taken
into account. So the doubles of two integers of 64 bits are in the order of the integers, except that
two integers can share a double. Integers of at most 53 bits, and integers more than 1024 apart, never
do.
-/
import Mathlib
import RoadPolicy.Proofs.Number.RoundedIntegers

namespace RoadPolicy

/-! ## Doubles by their bits -/

section

open Float.Model Float.Model.UnpackedFloat

/-- The sign bit, in its place. -/
def signWeight : Sign → Nat
  | .positive => 0
  | .negative => twoTo 63

theorem unpackSign_packComponents {spec : Format} (s : Sign) (e : BitVec spec.exponentBits)
    (f : BitVec spec.mantissaBitsWithoutImplicit) : unpackSign (packComponents spec s e f) = s.toBitVec := by
  apply BitVec.eq_of_getLsbD_eq
  intro i hi
  obtain rfl : i = 0 := by omega
  simp [unpackSign, packComponents, BitVec.getLsbD_append, BitVec.getElem_append]

theorem ofBitVec_toBitVec (s : Sign) : Sign.ofBitVec s.toBitVec = s := by
  cases s <;> rfl

theorem toNat_one_append {w : Nat} (f : BitVec w) : (1#1 ++ f).toNat = 2 ^ w + f.toNat := by
  rw [BitVec.toNat_append, ← Nat.shiftLeft_add_eq_or_of_lt f.isLt, Nat.shiftLeft_eq]
  simp

/-- A double by its sign, its exponent field and its fraction field. -/
def normalDouble (s : Sign) (e f : Nat) : UnpackedFloat :=
  .finite s (twoTo 52 + f) ((e : Int) - 1075) (Nat.add_pos_left (by decide) f)

variable {e f : Nat}

theorem unpack_packComponents (s : Sign) (h0 : 0 < e) (he : e < 2047) (hf : f < 2 ^ 52) :
    UnpackedFloat.unpack .binary64 (packComponents .binary64 s (BitVec.ofNat 11 e) (BitVec.ofNat 52 f)) =
      normalDouble s e f := by
  have hexp : (BitVec.ofNat 11 e).toNat = e := by rw [BitVec.toNat_ofNat]; omega
  have hfrac : (BitVec.ofNat 52 f).toNat = f := by rw [BitVec.toNat_ofNat]; omega
  have hne : ∀ x : BitVec 11, x.toNat ≠ e → BitVec.ofNat 11 e ≠ x := by
    rintro x hx rfl
    exact hx hexp
  have hfinite := hne (-1#11) (by rw [show (-1#11).toNat = 2047 by decide]; omega)
  have hnormal := hne 0#11 (by rw [show (0#11).toNat = 0 by decide]; omega)
  unfold UnpackedFloat.unpack normalDouble
  simp only [unpackMantissa_packComponents, unpackExponent_packComponents, unpackSign_packComponents,
    ofBitVec_toBitVec, hfinite, hnormal, if_false, toNat_one_append, hexp, hfrac]
  rfl

theorem pack_normalDouble (s : Sign) (h0 : 0 < e) (he : e < 2047) (hf : f < 2 ^ 52) :
    UnpackedFloat.pack .binary64 (normalDouble s e f) =
      packComponents .binary64 s (BitVec.ofNat 11 e) (BitVec.ofNat 52 f) := by
  have hexp : ((e : Int) - 1075 + (Format.exponentBias .binary64 : Nat) + (52 : Nat)).toNat = e := by
    rw [show Format.exponentBias .binary64 = 1023 by decide]
    omega
  have hlog : (twoTo 52 + f).log2 = 52 := by
    rw [twoTo_eq, Nat.log2_eq_iff (by omega)]
    omega
  have hfrac : BitVec.ofNat 52 (twoTo 52 + f) = BitVec.ofNat 52 f := by
    apply BitVec.eq_of_toNat_eq
    rw [BitVec.toNat_ofNat, BitVec.toNat_ofNat, twoTo_eq]
    omega
  have hfinite : ¬ 2 ^ 11 ≤ e + 1 := by omega
  unfold UnpackedFloat.pack normalDouble
  simp only [hexp, hlog, hfrac]
  rw [if_neg hfinite]
  rfl

/-- The fields of a word. -/
theorem toBitVec_ofNat (s : Sign) (bits : Nat) (h : bits < 2047 * 2 ^ 52) :
    (UInt64.ofNat (bits + signWeight s)).toBitVec =
      packComponents .binary64 s (BitVec.ofNat 11 (bits / 2 ^ 52)) (BitVec.ofNat 52 (bits % 2 ^ 52)) := by
  apply BitVec.eq_of_toNat_eq
  show _ = (s.toBitVec ++ BitVec.ofNat 11 (bits / 2 ^ 52) ++ BitVec.ofNat 52 (bits % 2 ^ 52)).toNat
  rw [BitVec.toNat_append, BitVec.toNat_append, ← Nat.shiftLeft_add_eq_or_of_lt (BitVec.isLt _),
    ← Nat.shiftLeft_add_eq_or_of_lt (BitVec.isLt _), Nat.shiftLeft_eq, Nat.shiftLeft_eq, BitVec.toNat_ofNat,
    BitVec.toNat_ofNat]
  show (bits + signWeight s) % 2 ^ 64 = _
  cases s with
  | positive =>
    simp only [Sign.toBitVec, BitVec.toNat_ofNat, signWeight]
    omega
  | negative =>
    simp only [Sign.toBitVec, BitVec.toNat_ofNat, signWeight, twoTo_eq]
    omega

theorem unpack_ofBits (s : Sign) {bits : Nat} (h0 : 2 ^ 52 ≤ bits) (h : bits < 2047 * 2 ^ 52) :
    (Float.ofBits (UInt64.ofNat (bits + signWeight s))).toModel.unpack =
      normalDouble s (bits / 2 ^ 52) (bits % 2 ^ 52) := by
  have he0 : 0 < bits / 2 ^ 52 := by omega
  have he : bits / 2 ^ 52 < 2047 := by omega
  have hf : bits % 2 ^ 52 < 2 ^ 52 := Nat.mod_lt _ (by decide)
  show UnpackedFloat.unpack .binary64 (UnpackedFloat.pack .binary64 (UnpackedFloat.unpack .binary64
    (UInt64.ofNat (bits + signWeight s)).toBitVec)) = _
  rw [toBitVec_ofNat s bits h, unpack_packComponents s he0 he hf, pack_normalDouble s he0 he hf,
    unpack_packComponents s he0 he hf]

/-! ## Doubles in order -/

theorem compare_congr {α β : Type} [LinearOrder α] [LinearOrder β] {a b : α} {c d : β} (hlt : a < b ↔ c < d)
    (hgt : b < a ↔ d < c) : compare a b = compare c d := by
  rcases lt_trichotomy c d with h | h | h
  · rw [compare_lt_iff_lt.2 h, compare_lt_iff_lt.2 (hlt.2 h)]
  · have hab : a = b := le_antisymm (not_lt.1 fun hba => (hgt.1 hba).ne' h) (not_lt.1 fun hab => (hlt.1 hab).ne h)
    rw [compare_eq_iff_eq.2 h, compare_eq_iff_eq.2 hab]
  · rw [compare_gt_iff_gt.2 h, compare_gt_iff_gt.2 (hgt.2 h)]

/-- The exponent decides, then the fraction, as in the order of the bits. -/
theorem compare_fields (a b : Nat) :
    (compare (((a / 2 ^ 52 : Nat) : Int) - 1075) (((b / 2 ^ 52 : Nat) : Int) - 1075)).then
      (compare (twoTo 52 + a % 2 ^ 52) (twoTo 52 + b % 2 ^ 52)) = compare a b := by
  have hlt : ∀ {a b : Nat}, a / 2 ^ 52 < b / 2 ^ 52 →
      (((a / 2 ^ 52 : Nat) : Int) - 1075 < ((b / 2 ^ 52 : Nat) : Int) - 1075 ∧ a < b) := by omega
  rcases lt_trichotomy (a / 2 ^ 52) (b / 2 ^ 52) with h | h | h
  · rw [Std.compare_eq_lt.2 (hlt h).1, Std.compare_eq_lt.2 (hlt h).2]
    rfl
  · have hexp : compare (((a / 2 ^ 52 : Nat) : Int) - 1075) (((b / 2 ^ 52 : Nat) : Int) - 1075) = .eq :=
      compare_eq_iff_eq.2 (by omega)
    rw [hexp]
    exact compare_congr (by omega) (by omega)
  · rw [Std.compare_eq_gt.2 (hlt h).1, Std.compare_eq_gt.2 (hlt h).2]
    rfl

/-- The double of a rank in the order of doubles: zero has rank 0, and a negative double has the
opposite rank of the positive one. -/
def doubleAt (k : Int) : UnpackedFloat :=
  if k = 0 then .zero .positive
  else normalDouble (if k < 0 then .negative else .positive) (k.natAbs / 2 ^ 52) (k.natAbs % 2 ^ 52)

theorem doubleAt_zero : doubleAt 0 = .zero .positive := if_pos rfl

theorem doubleAt_pos {k : Int} (h : 0 < k) :
    doubleAt k = normalDouble .positive (k.natAbs / 2 ^ 52) (k.natAbs % 2 ^ 52) := by
  rw [doubleAt, if_neg h.ne', if_neg h.not_gt]

theorem doubleAt_neg {k : Int} (h : k < 0) :
    doubleAt k = normalDouble .negative (k.natAbs / 2 ^ 52) (k.natAbs % 2 ^ 52) := by
  rw [doubleAt, if_neg h.ne, if_pos h]

/-- Doubles are compared as their ranks are. -/
theorem compare_doubleAt (j k : Int) : (doubleAt j).compare (doubleAt k) = some (compare j k) := by
  rcases lt_trichotomy j 0 with hj | rfl | hj
  · rw [doubleAt_neg hj]
    rcases lt_trichotomy k 0 with hk | rfl | hk
    · rw [doubleAt_neg hk]
      show some (Ordering.swap (Ordering.then _ _)) = _
      rw [compare_fields, ← Std.OrientedOrd.eq_swap]
      exact congrArg some (compare_congr (by omega) (by omega))
    · rw [doubleAt_zero, Std.compare_eq_lt.2 hj]
      rfl
    · rw [doubleAt_pos hk, Std.compare_eq_lt.2 (hj.trans hk)]
      rfl
  · rw [doubleAt_zero]
    rcases lt_trichotomy k 0 with hk | rfl | hk
    · rw [doubleAt_neg hk, Std.compare_eq_gt.2 hk]
      rfl
    · rfl
    · rw [doubleAt_pos hk, Std.compare_eq_lt.2 hk]
      rfl
  · rw [doubleAt_pos hj]
    rcases lt_trichotomy k 0 with hk | rfl | hk
    · rw [doubleAt_neg hk, Std.compare_eq_gt.2 (hk.trans hj)]
      rfl
    · rw [doubleAt_zero, Std.compare_eq_gt.2 hj]
      rfl
    · rw [doubleAt_pos hk]
      show some (Ordering.then _ _) = _
      rw [compare_fields]
      exact congrArg some (compare_congr (by omega) (by omega))

end

/-! ## The doubles of integers -/

/-- The rank of the double of an integer. -/
def rank (n : Int) : Int := if n < 0 then -(magnitudeBits n.natAbs 1 : Nat) else (magnitudeBits n.natAbs 1 : Nat)

variable {m n : Int}

theorem floatOfInt_eq (n : Int) :
    floatOfInt n = Float.ofBits (UInt64.ofNat (magnitudeBits n.natAbs 1 + if n < 0 then twoTo 63 else 0)) := by
  unfold floatOfInt nearestFloat
  have hnum : (mkRat n 1).num = n := by rw [Rat.mkRat_one]; rfl
  have hden : (mkRat n 1).den = 1 := by rw [Rat.mkRat_one]; rfl
  rw [hnum, hden]
  split <;> rfl

theorem unpack_floatOfInt (h : n.natAbs ≤ 2 ^ 63) : (floatOfInt n).toModel.unpack = doubleAt (rank n) := by
  rw [floatOfInt_eq]
  by_cases hn : n.natAbs = 0
  · obtain rfl : n = 0 := by omega
    rfl
  obtain ⟨hlow, hhigh⟩ := magnitudeBits_bounds hn h
  unfold rank
  split
  · rw [doubleAt_neg (by omega), Int.natAbs_neg, Int.natAbs_natCast]
    exact unpack_ofBits .negative hlow hhigh
  · rw [doubleAt_pos (by omega), Int.natAbs_natCast]
    exact unpack_ofBits .positive hlow hhigh

theorem rank_mono (h : m ≤ n) : rank m ≤ rank n := by
  unfold rank
  split_ifs with hm hn hn
  · have := magnitudeBits_mono (show n.natAbs ≤ m.natAbs by omega)
    omega
  · omega
  · omega
  · have := magnitudeBits_mono (show m.natAbs ≤ n.natAbs by omega)
    omega

/-- Integers of at most 53 bits keep their order. -/
theorem rank_lt (h : m < n) (hm : m.natAbs ≤ 2 ^ 53) (hn : n.natAbs ≤ 2 ^ 53) : rank m < rank n := by
  unfold rank
  split_ifs with hm0 hn0 hn0
  · have := magnitudeBits_lt (show n.natAbs < m.natAbs by omega) hm
    omega
  · have := magnitudeBits_lt (show 0 < m.natAbs by omega) hm
    omega
  · omega
  · have := magnitudeBits_lt (show m.natAbs < n.natAbs by omega) hn
    omega

section

variable (hm : m.natAbs ≤ 2 ^ 63) (hn : n.natAbs ≤ 2 ^ 63)

include hm hn

theorem compare_floatOfInt :
    (floatOfInt m).toModel.unpack.compare (floatOfInt n).toModel.unpack = some (compare (rank m) (rank n)) := by
  rw [unpack_floatOfInt hm, unpack_floatOfInt hn]
  exact compare_doubleAt (rank m) (rank n)

/-- The rank gives the bits back. A negative integer has bits besides its sign, so the
sign can be told, too. -/
theorem eq_of_rank_eq (h : rank m = rank n) :
    magnitudeBits m.natAbs 1 = magnitudeBits n.natAbs 1 ∧ (m < 0 ↔ n < 0) := by
  have hmbits : m < 0 → 0 < magnitudeBits m.natAbs 1 := fun h0 =>
    (magnitudeBits_bounds (by omega) hm).1.trans_lt' (by decide)
  have hnbits : n < 0 → 0 < magnitudeBits n.natAbs 1 := fun h0 =>
    (magnitudeBits_bounds (by omega) hn).1.trans_lt' (by decide)
  unfold rank at h
  split_ifs at h <;> omega

theorem floatOfInt_eq_iff_rank : floatOfInt m = floatOfInt n ↔ rank m = rank n := by
  constructor
  · intro h
    have hcompare := compare_floatOfInt hm hn
    rw [h, compare_floatOfInt hn hn, Option.some_inj] at hcompare
    exact compare_eq_iff_eq.1 (hcompare.symm.trans (compare_eq_iff_eq.2 rfl))
  · intro h
    obtain ⟨hbits, hsign⟩ := eq_of_rank_eq hm hn h
    rw [floatOfInt_eq, floatOfInt_eq, hbits]
    simp only [hsign]

/-- Doubles of integers are in the order of the integers, unless they are the same. -/
theorem floatOfInt_lt_iff : floatOfInt m < floatOfInt n ↔ m < n ∧ floatOfInt m ≠ floatOfInt n := by
  have hrank : floatOfInt m < floatOfInt n ↔ rank m < rank n := by
    show (floatOfInt m).lt (floatOfInt n) = true ↔ _
    rw [Float.lt, decide_eq_true_iff]
    show ((floatOfInt m).toModel.unpack.compare (floatOfInt n).toModel.unpack == some .lt) = true ↔ _
    rw [compare_floatOfInt hm hn, beq_iff_eq, Option.some_inj, Std.compare_eq_lt]
  rw [hrank, ne_eq, floatOfInt_eq_iff_rank hm hn]
  constructor
  · intro h
    exact ⟨lt_of_not_ge fun hle => (rank_mono hle).not_gt h, h.ne⟩
  · rintro ⟨h, hne⟩
    exact lt_of_le_of_ne (rank_mono h.le) hne

theorem floatOfInt_le_iff : floatOfInt m ≤ floatOfInt n ↔ m ≤ n ∨ floatOfInt m = floatOfInt n := by
  have hrank : floatOfInt m ≤ floatOfInt n ↔ rank m ≤ rank n := by
    show (floatOfInt m).le (floatOfInt n) = true ↔ _
    rw [Float.le, decide_eq_true_iff]
    show ((floatOfInt m).toModel.unpack.compare (floatOfInt n).toModel.unpack).any (·.isLE) = true ↔ _
    rw [compare_floatOfInt hm hn, Option.any_some, Std.isLE_compare]
  rw [hrank, floatOfInt_eq_iff_rank hm hn]
  constructor
  · intro h
    by_contra hcon
    rw [not_or] at hcon
    exact hcon.2 (h.antisymm (rank_mono (le_of_not_ge hcon.1)))
  · rintro (h | h)
    · exact rank_mono h
    · exact h.le

/-- Integers with the same double are at most 1024 apart. -/
theorem abs_sub_le_of_floatOfInt_eq (h : floatOfInt m = floatOfInt n) : |m - n| ≤ 1024 := by
  obtain ⟨hbits, hsign⟩ := eq_of_rank_eq hm hn ((floatOfInt_eq_iff_rank hm hn).1 h)
  rw [abs_le]
  rcases lt_trichotomy m.natAbs n.natAbs with hlt | heq | hgt
  · have := le_add_of_magnitudeBits_eq hlt hn hbits
    omega
  · omega
  · have := le_add_of_magnitudeBits_eq hgt hm hbits.symm
    omega

end

/-- Integers of at most 53 bits have doubles of their own. -/
theorem floatOfInt_inj (hm : m.natAbs ≤ 2 ^ 53) (hn : n.natAbs ≤ 2 ^ 53) (h : floatOfInt m = floatOfInt n) :
    m = n := by
  have hrank := (floatOfInt_eq_iff_rank (hm.trans (by decide)) (hn.trans (by decide))).1 h
  rcases lt_trichotomy m n with hlt | heq | hgt
  · exact absurd hrank (rank_lt hlt hm hn).ne
  · exact heq
  · exact absurd hrank (rank_lt hgt hn hm).ne'

/-! ## Integers that doubles tell apart -/

/-- Two integers that are equal or have different doubles. -/
def Apart (m n : Int64) : Prop := m = n ∨ floatOfInt m.toInt ≠ floatOfInt n.toInt

theorem natAbs_toInt_le (n : Int64) : n.toInt.natAbs ≤ 2 ^ 63 := by
  have := n.le_toInt
  have := n.toInt_lt
  omega

namespace Apart

variable {m n : Int64}

theorem symm (h : Apart m n) : Apart n m := h.imp Eq.symm Ne.symm

theorem of_natAbs_le (hm : m.toInt.natAbs ≤ 2 ^ 53) (hn : n.toInt.natAbs ≤ 2 ^ 53) : Apart m n := by
  by_cases h : floatOfInt m.toInt = floatOfInt n.toInt
  · exact .inl (Int64.toInt_inj.1 (floatOfInt_inj hm hn h))
  · exact .inr h

theorem of_lt_abs_sub (h : 1024 < |m.toInt - n.toInt|) : Apart m n := by
  refine .inr fun hsame => ?_
  have hnear := abs_sub_le_of_floatOfInt_eq (natAbs_toInt_le m) (natAbs_toInt_le n) hsame
  omega

/-- The doubles are in order exactly if the integers are and are told apart. -/
theorem floatOfInt_lt_iff_and : floatOfInt m.toInt < floatOfInt n.toInt ↔ m.toInt < n.toInt ∧ Apart m n := by
  rw [floatOfInt_lt_iff (natAbs_toInt_le m) (natAbs_toInt_le n)]
  constructor
  · rintro ⟨hlt, hne⟩
    exact ⟨hlt, .inr hne⟩
  · rintro ⟨hlt, rfl | hne⟩
    · exact absurd hlt (lt_irrefl _)
    · exact ⟨hlt, hne⟩

theorem floatOfInt_lt_iff (h : Apart m n) : floatOfInt m.toInt < floatOfInt n.toInt ↔ m.toInt < n.toInt :=
  floatOfInt_lt_iff_and.trans (and_iff_left h)

theorem floatOfInt_le_iff (h : Apart m n) : floatOfInt m.toInt ≤ floatOfInt n.toInt ↔ m.toInt ≤ n.toInt := by
  rw [RoadPolicy.floatOfInt_le_iff (natAbs_toInt_le m) (natAbs_toInt_le n)]
  constructor
  · rintro (hle | hsame)
    · exact hle
    · rw [h.resolve_right fun hne => hne hsame]
  · exact .inl

end Apart

end RoadPolicy
