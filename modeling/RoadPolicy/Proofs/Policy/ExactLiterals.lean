/-
Number literals are exact at any length. The term that a literal is lowered to has the value that the digits
write, place by place. A literal with a point becomes a fraction in lowest terms, so zeros at either end of the
digits do not matter; and the text of the term in the solver language, read with the rules of that language,
gives the same number back.
-/
import RoadPolicy.Proofs.Formula.TermReading
import RoadPolicy.Proofs.Policy.TypeSoundness

namespace RoadPolicy

/-! ## Numbers in the solver language -/

/-- A numeral of the solver language: digits that do not start with a zero, or a zero alone. -/
def isNumeral (cs : List Char) : Bool := allDigits cs && (cs.head? != some '0' || cs.length == 1)

/-- The number that a word of the solver language writes: a numeral, possibly with a point and more digits. -/
def numeralValue? (w : String) : Option Rat :=
  match cutAtPoint w.toList with
  | (whole, none) => if isNumeral whole then some (wholeValue whole) else none
  | (whole, some fraction) =>
    if isNumeral whole && allDigits fraction then some (wholeValue whole + fractionValue fraction) else none

/-- What an operator of the solver language makes of numbers. Nothing is divided by zero. -/
def solverArith? (op : String) : List Rat → Option Rat
  | [x] => if op = "-" then some (-x) else none
  | [x, y] =>
    match Arith.ofText? op with
    | some f => some (f.onRats x y)
    | none => if op = "/" ∧ y ≠ 0 then some (x / y) else none
  | _ => none

namespace SExpr

mutual

/-- The number that an S-expression denotes in the arithmetic of the solver language. -/
def number? : SExpr → Option Rat
  | atom w => numeralValue? w
  | list [] => none
  | list (list _ :: _) => none
  | list (atom op :: args) => (numbers? args).bind (solverArith? op)

def numbers? : List SExpr → Option (List Rat)
  | [] => some []
  | e :: es => e.number?.bind fun x => (numbers? es).map (x :: ·)

end

end SExpr

/-- The number that a text of the solver language denotes. -/
def solverNumber? (text : String) : Option Rat := (SExpr.read? text).bind SExpr.number?

/-- The digits of a positive number do not start with a zero. -/
theorem head?_toDigits {n : Nat} (h : 0 < n) : (Nat.toDigits 10 n).head? ≠ some '0' := by
  induction n using Nat.strongRecOn with
  | ind n ih =>
    rw [Nat.toDigits_eq_if (by decide)]
    split
    next hlt =>
      have hcode : n.digitChar.toNat = 48 + n := Nat.toNat_digitChar_of_lt_ten hlt
      intro hzero
      rw [Option.some.inj hzero] at hcode
      have : '0'.toNat = 48 := rfl
      omega
    next hge =>
      -- the first digit is that of the number without its last digit
      have hpos : 0 < n / 10 := by omega
      rw [List.head?_append_of_ne_nil _ Nat.toDigits_ne_nil]
      exact ih (n / 10) (by omega) hpos

theorem isNumeral_toString (n : Nat) : isNumeral (toString n).toList = true := by
  rw [isNumeral, allDigits_iff.2 (isDigits_toString n), Bool.true_and, Nat.toString_eq_ofList_toDigits,
    String.toList_ofList]
  rcases Nat.eq_zero_or_pos n with rfl | hpos
  · rfl
  · rw [bne_iff_ne.2 (head?_toDigits hpos), Bool.true_or]

theorem wholeValue_toString (n : Nat) : wholeValue (toString n).toList = n := by
  rw [← ofDigits_eq, ofDigits_toString]

theorem numeralValue?_natural (n : Nat) : numeralValue? (toString n) = some (n : Rat) := by
  have hcut : cutAtPoint (toString n).toList = ((toString n).toList, none) :=
    cutAtPoint_of_not_mem (point_not_mem_of_isDigits (isDigits_toString n))
  rw [numeralValue?, hcut]
  simp only [isNumeral_toString, if_true, wholeValue_toString]

theorem numeralValue?_decimal (n : Nat) : numeralValue? (toString n ++ ".0") = some (n : Rat) := by
  have hzero : fractionValue ['0'] = 0 := by simp [fractionValue, digitValue]
  have hdigits : allDigits ['0'] = true := rfl
  rw [numeralValue?, Term.cutAtPoint_decimal]
  simp only [isNumeral_toString, hdigits, Bool.and_true, if_true, wholeValue_toString, hzero, add_zero]

namespace SExpr

theorem number?_signed {w : String} {n : Int} (hw : numeralValue? w = some (n.natAbs : Rat)) :
    (signed (n < 0) w).number? = some (n : Rat) := by
  unfold signed
  split
  next hneg =>
    have habs : -(n.natAbs : Rat) = n := by
      rw [Nat.cast_natAbs, abs_of_neg (by simpa using hneg), Int.cast_neg, neg_neg]
    show ((numeralValue? w).bind fun x => some [x]).bind (solverArith? "-") = _
    rw [hw]
    exact congrArg some habs
  next hpos =>
    have habs : (n.natAbs : Rat) = n := by
      rw [Nat.cast_natAbs, abs_of_nonneg (by simpa using hpos)]
    rw [number?, hw, habs]

theorem number?_ofRat (q : Rat) : (ofRat q).number? = some q := by
  have hnum : (signed (q.num < 0) (toString q.num.natAbs ++ ".0")).number? = some (q.num : Rat) :=
    number?_signed (numeralValue?_decimal _)
  unfold ofRat
  split
  next hden =>
    have hq : (q.num : Rat) = q := by rw [← Rat.num_div_den q, hden]; simp
    rw [hnum, hq]
  next =>
    have hden : (q.den : Rat) ≠ 0 := Nat.cast_ne_zero.2 q.den_nz
    have hargs : numbers? [signed (q.num < 0) (toString q.num.natAbs ++ ".0"), atom (toString q.den ++ ".0")] =
        some [(q.num : Rat), (q.den : Rat)] := by
      rw [numbers?, hnum, numbers?, number?, numeralValue?_decimal, numbers?]
      rfl
    rw [app, number?, hargs, Option.bind_some]
    show (if "/" = "/" ∧ (q.den : Rat) ≠ 0 then some ((q.num : Rat) / q.den) else none) = some q
    rw [if_pos ⟨rfl, hden⟩, Rat.num_div_den]

end SExpr

theorem solverNumber?_int (n : Int) : solverNumber? (Term.int n).text = some (n : Rat) := by
  rw [solverNumber?, Term.text, SExpr.read?_text (Term.legible_toSExpr _)]
  exact SExpr.number?_signed (numeralValue?_natural _)

theorem solverNumber?_real (q : Rat) : solverNumber? (Term.real q).text = some q := by
  rw [solverNumber?, Term.text, SExpr.read?_text (Term.legible_toSExpr _)]
  exact SExpr.number?_ofRat q

/-! ## Zeros at the ends -/

theorem digitValue_zero : digitValue '0' = 0 := by simp [digitValue]

theorem wholeValue_zeros (k : Nat) (cs : List Char) : wholeValue (List.replicate k '0' ++ cs) = wholeValue cs := by
  induction k with
  | zero => rfl
  | succ k ih => rw [List.replicate_succ, List.cons_append, wholeValue, digitValue_zero, ih, zero_mul, zero_add]

theorem fractionValue_replicate (k : Nat) : fractionValue (List.replicate k '0') = 0 := by
  induction k with
  | zero => rfl
  | succ k ih => rw [List.replicate_succ, fractionValue, digitValue_zero, ih, zero_add, zero_div]

theorem fractionValue_zeros (cs : List Char) (k : Nat) :
    fractionValue (cs ++ List.replicate k '0') = fractionValue cs := by
  induction cs with
  | nil => exact fractionValue_replicate k
  | cons c cs ih => rw [List.cons_append, fractionValue, ih, fractionValue]

theorem decimalValue_of_point {whole : List Char} (h : '.' ∉ whole) (fraction : List Char) :
    decimalValue (whole ++ '.' :: fraction) = wholeValue whole + fractionValue fraction :=
  decimalValue_eq_of_cutAtPoint (cutAtPoint_append h fraction)

/-- A word with zeros put before and behind it. -/
def zeroPadded (before : Nat) (word : String) (behind : Nat) : String :=
  String.ofList (List.replicate before '0' ++ word.toList ++ List.replicate behind '0')

theorem isDigits_zeros {cs : List Char} (h : IsDigits cs) (before behind : Nat) :
    IsDigits (List.replicate before '0' ++ cs ++ List.replicate behind '0') := by
  have hzeros : ∀ k, ∀ c ∈ List.replicate k '0', c.isDigit = true := by
    intro k c hc
    rw [List.eq_of_mem_replicate hc]
    rfl
  refine ⟨by simp [h.1], ?_⟩
  rw [List.forall_mem_append, List.forall_mem_append]
  exact ⟨⟨hzeros before, h.2⟩, hzeros behind⟩

/-- Zeros around a decimal change neither that it is one nor its value. -/
theorem Literal.writes_zeroPadded {word : String} (h : (Literal.decimal word).Writes word) (before behind : Nat) :
    (Literal.decimal (zeroPadded before word behind)).Writes (zeroPadded before word behind) ∧
      decimalValue (zeroPadded before word behind).toList = decimalValue word.toList := by
  obtain ⟨-, whole, fraction, hword, hwhole, hfraction⟩ := h
  have hpadded : (zeroPadded before word behind).toList =
      (List.replicate before '0' ++ whole) ++ '.' :: (fraction ++ List.replicate behind '0') := by
    rw [zeroPadded, String.toList_ofList, hword]
    simp
  have hwhole' : IsDigits (List.replicate before '0' ++ whole) := by
    simpa using isDigits_zeros hwhole before 0
  have hfraction' : IsDigits (fraction ++ List.replicate behind '0') := by
    simpa using isDigits_zeros hfraction 0 behind
  refine ⟨⟨rfl, _, _, hpadded, hwhole', hfraction'⟩, ?_⟩
  rw [hpadded, hword, decimalValue_of_point (point_not_mem_of_isDigits hwhole'),
    decimalValue_of_point (point_not_mem_of_isDigits hwhole), wholeValue_zeros, fractionValue_zeros]

/-! ## Literals -/

namespace Literal

variable {l m : Literal} {t u : Term} {x y : Rat}

/-- Wherever the literal stands, it is lowered to the term and takes no names. -/
def LowersTo (l : Literal) (t : Term) : Prop :=
  ∀ registry span args names, ((Head.literal l).operand registry span args).run.run names = (.ok (.term t), names)

theorem lowersTo_iff : l.LowersTo t ↔ l.term? = some t := by
  constructor
  · intro h
    have hrun := h .empty ⟨0, 0⟩ [] .initial
    rw [Head.operand] at hrun
    rcases hterm : l.term? with _ | u
    · rw [hterm] at hrun; cases hrun
    · rw [hterm] at hrun
      cases hrun
      rfl
  · intro h registry span args names
    rw [Head.operand, h]
    rfl

/-- The term keeps the number that the literal writes: digits are an integer, digits with a point a fraction in
lowest terms. -/
def Keeps : Literal → Rat → Term → Prop
  | int _, x, t => ∃ n : Nat, t = .int n ∧ (n : Rat) = x
  | decimal _, x, t =>
    ∃ q : Rat, t = .real q ∧ (q.num : Rat) / q.den = x ∧ 0 < q.den ∧ q.num.natAbs.Coprime q.den
  | bool _, _, _ => False

theorem keeps_of_term? {word : String} (hword : l.Writes word) (hnumber : ∀ b, l ≠ .bool b) (h : l.term? = some t) :
    l.Keeps (decimalValue word.toList) t := by
  cases l with
  | int digits =>
    obtain ⟨rfl, -⟩ := hword
    obtain ⟨n, hn, rfl⟩ := Option.map_eq_some_iff.1 h
    exact ⟨n, rfl, natural?_eq hn⟩
  | decimal digits =>
    obtain ⟨rfl, -⟩ := hword
    obtain ⟨q, hq, rfl⟩ := Option.map_eq_some_iff.1 h
    exact ⟨q, rfl, q.num_div_den.trans (decimal?_eq hq), q.den_pos, q.reduced⟩
  | bool b => exact absurd rfl (hnumber b)

theorem Keeps.amount (h : l.Keeps x t) (I : Interpretation) : I.amount t = x := by
  cases l with
  | int digits =>
    obtain ⟨n, rfl, hn⟩ := h
    exact hn
  | decimal digits =>
    obtain ⟨q, rfl, hq, -⟩ := h
    exact q.num_div_den.symm.trans hq
  | bool b => exact h.elim

theorem Keeps.solverNumber (h : l.Keeps x t) : solverNumber? t.text = some x := by
  cases l with
  | int digits =>
    obtain ⟨n, rfl, rfl⟩ := h
    exact solverNumber?_int n
  | decimal digits =>
    obtain ⟨q, rfl, rfl, -⟩ := h
    rw [solverNumber?_real, Rat.num_div_den]
  | bool b => exact h.elim

theorem Keeps.sort_ne_bool (h : l.Keeps x t) : t.sort ≠ .bool := by
  cases l with
  | int digits =>
    obtain ⟨n, rfl, -⟩ := h
    exact TermSort.noConfusion
  | decimal digits =>
    obtain ⟨q, rfl, -⟩ := h
    exact TermSort.noConfusion
  | bool b => exact h.elim

/-- Terms of literals are equal exactly if they have the same sort and the same value. -/
theorem Keeps.eq_iff (ht : l.Keeps x t) (hu : m.Keeps y u) : t = u ↔ t.sort = u.sort ∧ x = y := by
  constructor
  · rintro rfl
    let I : Interpretation := ⟨fun _ => .number 0, fun a _ => a⟩
    exact ⟨rfl, (ht.amount I).symm.trans (hu.amount I)⟩
  · rintro ⟨hsort, rfl⟩
    cases l with
    | bool b => exact ht.elim
    | int digits =>
      obtain ⟨n, rfl, hn⟩ := ht
      cases m with
      | bool b => exact hu.elim
      | decimal digits' =>
        obtain ⟨q, rfl, -⟩ := hu
        cases hsort
      | int digits' =>
        obtain ⟨k, rfl, hk⟩ := hu
        rw [Nat.cast_injective (hn.trans hk.symm)]
    | decimal digits =>
      obtain ⟨q, rfl, hq, -⟩ := ht
      cases m with
      | bool b => exact hu.elim
      | int digits' =>
        obtain ⟨k, rfl, -⟩ := hu
        cases hsort
      | decimal digits' =>
        obtain ⟨r, rfl, hr, -⟩ := hu
        rw [← q.num_div_den, ← r.num_div_den, hq, hr]

/-- A word that is read as a number is lowered to exactly the number that it writes, and so is its text in the
solver language. Two such words are lowered to one term exactly if they are of one sort and write the same number;
zeros around a decimal do not matter. -/
theorem number_literals_exact (word : String) (l : Literal) (h : Literal.ofWord? word = some l)
    (hnumber : ∀ b, l ≠ .bool b) :
    ∃ t, l.LowersTo t ∧ l.Keeps (decimalValue word.toList) t ∧
      (∀ I : Interpretation, I.amount t = decimalValue word.toList) ∧
      solverNumber? t.text = some (decimalValue word.toList) ∧
      (∀ other m u, Literal.ofWord? other = some m → m.LowersTo u →
        (t = u ↔ t.sort = u.sort ∧ decimalValue word.toList = decimalValue other.toList)) ∧
      (l = .decimal word → ∀ before behind, (Literal.decimal (zeroPadded before word behind)).LowersTo t) := by
  have hwrites := ofWord?_eq_some_iff.1 h
  obtain ⟨t, hterm, -⟩ := hwrites.term?
  have hkeeps := keeps_of_term? hwrites hnumber hterm
  refine ⟨t, lowersTo_iff.2 hterm, hkeeps, hkeeps.amount, hkeeps.solverNumber, fun other m u hm hu => ?_, ?_⟩
  · have hother := ofWord?_eq_some_iff.1 hm
    cases m with
    | bool b =>
      -- a truth value is of another sort
      obtain rfl : u = .bool b := (Option.some.inj (lowersTo_iff.1 hu)).symm
      refine ⟨?_, fun hsame => absurd hsame.1 hkeeps.sort_ne_bool⟩
      rintro rfl
      exact absurd rfl hkeeps.sort_ne_bool
    | int digits | decimal digits =>
      exact hkeeps.eq_iff (keeps_of_term? hother (fun b => Literal.noConfusion) (lowersTo_iff.1 hu))
  · rintro rfl before behind
    obtain ⟨hpadded, hvalue⟩ := writes_zeroPadded hwrites before behind
    obtain ⟨u, hu, -⟩ := hpadded.term?
    have hsame := keeps_of_term? hpadded (fun b => Literal.noConfusion) hu
    rw [hvalue] at hsame
    have hsort : t.sort = u.sort := by
      obtain ⟨q, rfl, -⟩ := hkeeps
      obtain ⟨r, rfl, -⟩ := hsame
      rfl
    rw [(hkeeps.eq_iff hsame).2 ⟨hsort, rfl⟩]
    exact lowersTo_iff.2 hu

/-- Zeros around the digits are lost, the number is not. -/
theorem number_literals_exact_padded :
    Literal.ofWord? "7.5" = some (.decimal "7.5") ∧ ∃ t, (Literal.decimal "7.5").LowersTo t ∧
      (Literal.decimal "007.50").LowersTo t ∧ (∀ I : Interpretation, I.amount t = 15 / 2) ∧ t.text = "(/ 15.0 2.0)" ∧
      solverNumber? "(/ 15.0 2.0)" = some (15 / 2) := by
  have hword : Literal.ofWord? "7.5" = some (.decimal "7.5") := by decide
  have hvalue : decimalValue "7.5".toList = 15 / 2 := by cbv
  have hpadded : zeroPadded 2 "7.5" 1 = "007.50" := by decide
  obtain ⟨t, hlower, -, hamount, hsolver, -, hzeros⟩ := number_literals_exact "7.5" _ hword fun b => Literal.noConfusion
  rw [hvalue] at hamount hsolver
  have hlower' := hzeros rfl 2 1
  rw [hpadded] at hlower'
  have hterm : (Literal.decimal "7.5").term? = some (.real (mkRat 15 2)) := by cbv
  obtain rfl : t = .real (mkRat 15 2) := Option.some.inj ((lowersTo_iff.1 hlower).symm.trans hterm)
  have htext : (Term.real (mkRat 15 2)).text = "(/ 15.0 2.0)" := by cbv
  rw [htext] at hsolver
  exact ⟨hword, _, hlower, hlower', hamount, htext, hsolver⟩

end Literal

end RoadPolicy
