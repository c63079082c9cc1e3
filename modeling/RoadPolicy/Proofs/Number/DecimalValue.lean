/-
The number that a decimal text writes, by the place of each digit, and that the readers of numbers
compute it: no digit is lost and nothing is rounded, whatever the length of the text. The digits that
a number is printed in write it.
-/
import Mathlib.Data.List.TakeWhile
import Mathlib.Tactic
import RoadPolicy.Number.Decimal
import RoadPolicy.Proofs.Language.Grammar

namespace RoadPolicy

/-- The number that one digit writes. -/
def digitValue (c : Char) : Rat := ((c.toNat - '0'.toNat : Nat) : Rat)

/-- Digits before the point: the last one counts ones, the one before it tens, and so on. -/
def wholeValue : List Char → Rat
  | [] => 0
  | c :: cs => digitValue c * 10 ^ cs.length + wholeValue cs

/-- Digits after the point: the first one counts tenths, the next one hundredths, and so on. -/
def fractionValue : List Char → Rat
  | [] => 0
  | c :: cs => (digitValue c + fractionValue cs) / 10

/-- The number that digits write, before a point and possibly after it. -/
def decimalValue (text : List Char) : Rat :=
  wholeValue (text.takeWhile (· != '.')) + fractionValue ((text.dropWhile (· != '.')).drop 1)

theorem foldl_digits (cs : List Char) (n : Nat) :
    ((cs.foldl (fun n c => 10 * n + (c.toNat - '0'.toNat)) n : Nat) : Rat) = n * 10 ^ cs.length + wholeValue cs := by
  induction cs generalizing n with
  | nil => simp [wholeValue]
  | cons c cs ih =>
    rw [List.foldl_cons, ih, wholeValue, digitValue, List.length_cons]
    push_cast
    ring

theorem ofDigits_eq (cs : List Char) : (ofDigits cs : Rat) = wholeValue cs := by
  rw [ofDigits, foldl_digits]
  simp

theorem wholeValue_append (cs ds : List Char) :
    wholeValue (cs ++ ds) = wholeValue cs * 10 ^ ds.length + wholeValue ds := by
  induction cs with
  | nil => simp [wholeValue]
  | cons c cs ih =>
    rw [List.cons_append, wholeValue, ih, wholeValue, List.length_append, pow_add]
    ring

/-- Moving the point behind the last digit. -/
theorem wholeValue_eq_fractionValue (cs : List Char) : wholeValue cs = fractionValue cs * 10 ^ cs.length := by
  induction cs with
  | nil => simp [wholeValue, fractionValue]
  | cons c cs ih =>
    rw [wholeValue, fractionValue, ih, List.length_cons, pow_succ]
    ring

theorem wholeValue_cut (whole fraction : List Char) :
    wholeValue (whole ++ fraction) / 10 ^ fraction.length = wholeValue whole + fractionValue fraction := by
  have hpow : (10 : Rat) ^ fraction.length ≠ 0 := pow_ne_zero _ (by norm_num)
  rw [wholeValue_append, wholeValue_eq_fractionValue fraction, div_eq_iff hpow]
  ring

theorem decimalValue_of_isDigits {cs : List Char} (h : IsDigits cs) : decimalValue cs = wholeValue cs := by
  have hpoint := point_not_mem_of_isDigits h
  have hall : ∀ c ∈ cs, (c != '.') = true := fun c hc => bne_iff_ne.2 fun he => hpoint (he ▸ hc)
  rw [decimalValue, List.takeWhile_eq_self_iff.2 hall, List.dropWhile_eq_nil_iff.2 hall]
  simp [fractionValue]

/-- The value of digits around the first point of a text. -/
theorem decimalValue_eq_of_cutAtPoint {text whole : List Char} {fraction? : Option (List Char)}
    (h : cutAtPoint text = (whole, fraction?)) :
    decimalValue text = wholeValue whole + fractionValue (fraction?.getD []) := by
  unfold cutAtPoint at h
  split at h
  · rename_i hdrop
    cases h
    have hall := List.dropWhile_eq_nil_iff.1 hdrop
    rw [decimalValue, hdrop, List.takeWhile_eq_self_iff.2 hall]
    rfl
  · rename_i c rest hdrop
    cases h
    rw [decimalValue, hdrop]
    rfl

theorem natural?_eq {text : String} {n : Nat} (h : natural? text = some n) : (n : Rat) = decimalValue text.toList := by
  unfold natural? at h
  split at h
  · rename_i hd
    cases h
    rw [ofDigits_eq, decimalValue_of_isDigits (allDigits_iff.1 hd)]
  · cases h

theorem decimal?_eq {text : String} {q : Rat} (h : decimal? text = some q) : q = decimalValue text.toList := by
  unfold decimal? at h
  rcases hcut : cutAtPoint text.toList with ⟨whole, fraction?⟩
  rw [hcut] at h
  simp only at h
  split at h
  · cases h
    rw [decimalValue_eq_of_cutAtPoint hcut, ← wholeValue_cut, Rat.mkRat_eq_div]
    have hten : ((tenTo (fraction?.getD []).length : Nat) : Rat) = 10 ^ (fraction?.getD []).length := by
      rw [tenTo]
      exact Nat.cast_pow 10 _
    have hdigits := ofDigits_eq (whole ++ fraction?.getD [])
    push_cast
    rw [hten, hdigits]
  · cases h

/-- Digits are a natural number. -/
theorem natural?_of_isDigits {text : String} (h : IsDigits text.toList) : natural? text = some (ofDigits text.toList) :=
  if_pos (allDigits_iff.2 h)

/-- Digits with a point between them are a decimal number. -/
theorem decimal?_of_isDigits {text : String} {whole fraction : List Char} (htext : text.toList = whole ++ '.' :: fraction)
    (hwhole : IsDigits whole) (hfraction : IsDigits fraction) :
    decimal? text = some (mkRat (ofDigits (whole ++ fraction)) (tenTo fraction.length)) := by
  have hcut : cutAtPoint text.toList = (whole, some fraction) := by
    rw [htext, cutAtPoint_append (point_not_mem_of_isDigits hwhole)]
  have hall : (!whole.isEmpty && (whole ++ fraction).all Char.isDigit) = true := by
    simpa [hwhole.1] using And.intro hwhole.2 hfraction.2
  rw [decimal?, hcut]
  simp only [Option.getD_some, hall, if_true]

/-! ## Numbers as they are printed -/

/-- A natural number is printed in digits. -/
theorem isDigits_toString (n : Nat) : IsDigits (toString n).toList := by
  rw [Nat.toString_eq_ofList_toDigits, String.toList_ofList]
  exact ⟨Nat.toDigits_ne_nil, fun c hc => Nat.isDigit_of_mem_toDigits (by decide) (by decide) hc⟩

/-- The digits of a natural number write it. -/
theorem ofDigits_toString (n : Nat) : ofDigits (toString n).toList = n := by
  rw [Nat.toString_eq_ofList_toDigits, String.toList_ofList]
  have h := Nat.ofDigitChars_ten_toDigits (n := n)
  rwa [Nat.ofDigitChars_eq_foldl] at h

end RoadPolicy
