/-
The text of a term can be read in one way only. A reader takes the S-expression of a term apart and
finds the term again, except for what the text does not show: the sorts of constants, the difference
between an empty junction and its truth value, and between a literal and the arithmetic it is written
with. Terms with the same text are therefore the same up to these differences, and conversely.
-/
import Mathlib.Tactic
import RoadPolicy.Proofs.Formula.Renaming
import RoadPolicy.Proofs.Formula.SExprReading
import RoadPolicy.Proofs.Formula.Subterms
import RoadPolicy.Proofs.Number.DecimalValue

namespace RoadPolicy

/-! ## What the text of a term shows -/

namespace Term

/-- A negative literal is the negation of a literal. -/
def signed (negative : Bool) (t : Term) : Term := if negative then neg t else t

/-- An integer literal without its sign. -/
def plainInt (n : Int) : Term := signed (n < 0) (int n.natAbs)

/-- A real literal as a quotient of literals without signs. A whole number needs no quotient. -/
def plainReal (q : Rat) : Term :=
  let num := signed (q.num < 0) (real q.num.natAbs)
  if q.den = 1 then num else div num (real q.den)

mutual

/-- The term without what its text does not show. Every constant counts as real. -/
def normalised : Term → Term
  | const name _ => const name .real
  | bool b => bool b
  | int n => plainInt n
  | real q => plainReal q
  | arith op a b => arith op a.normalised b.normalised
  | div a b => div a.normalised b.normalised
  | neg a => neg a.normalised
  | ite c a b => ite c.normalised a.normalised b.normalised
  | eq a b => eq a.normalised b.normalised
  | compare op a b => compare op a.normalised b.normalised
  | junction j [] => bool j.unit
  | junction j (t :: ts) => junction j (t.normalised :: normalisedAll ts)
  | not a => not a.normalised
  | implies a b => implies a.normalised b.normalised
  | quantified q binders body => quantified q binders body.normalised

def normalisedAll : List Term → List Term
  | [] => []
  | t :: ts => t.normalised :: normalisedAll ts

end

/-- No name has a bar in it, and no constant has the name of a truth value. -/
structure Spellable (t : Term) : Prop where
  constants : ∀ name ∈ t.constNames, '|' ∉ name.toList ∧ name ≠ "true" ∧ name ≠ "false"
  binders : ∀ name ∈ t.boundNames, '|' ∉ name.toList

/-- The names that stand at the root of a term. -/
def SpellsRoot : Term → Prop
  | const name _ => '|' ∉ name.toList ∧ name ≠ "true" ∧ name ≠ "false"
  | quantified _ binders _ => ∀ b ∈ binders, '|' ∉ b.name.toList
  | _ => True

theorem spellable_iff {t : Term} : t.Spellable ↔ t.Everywhere SpellsRoot := by
  constructor
  · intro h s hs
    cases s with
    | const name sort => exact h.constants name (mem_constNames_iff.2 ⟨_, hs, rfl⟩)
    | quantified q binders body => exact fun b hb => h.binders b.name (mem_boundNames_iff.2 ⟨_, hs, b, hb, rfl⟩)
    | bool | int | real | arith | div | neg | ite | eq | compare | junction | not | implies => trivial
  · intro h
    refine ⟨fun name hname => ?_, fun name hname => ?_⟩
    · obtain ⟨s, hs, hname⟩ := mem_constNames_iff.1 hname
      cases s with
      | const n sort => cases hname; exact h _ hs
      | bool | int | real | arith | div | neg | ite | eq | compare | junction | not | implies | quantified =>
        cases hname
    · obtain ⟨s, hs, b, hb, rfl⟩ := mem_boundNames_iff.1 hname
      cases s with
      | quantified q binders body => exact h _ hs b hb
      | const | bool | int | real | arith | div | neg | ite | eq | compare | junction | not | implies => cases hb

/-- The term is no constant with the name of a truth value. -/
def NamesNoTruth : Term → Prop
  | const name _ => name ≠ "true" ∧ name ≠ "false"
  | _ => True

theorem everywhere_namesNoTruth {t : Term} :
    t.Everywhere NamesNoTruth ↔ ∀ name ∈ t.constNames, name ≠ "true" ∧ name ≠ "false" := by
  constructor
  · intro h name hname
    obtain ⟨s, hs, hname⟩ := mem_constNames_iff.1 hname
    cases s with
    | const n sort => cases hname; exact h _ hs
    | bool | int | real | arith | div | neg | ite | eq | compare | junction | not | implies | quantified => cases hname
  · intro h s hs
    cases s with
    | const name sort => exact h name (mem_constNames_iff.2 ⟨_, hs, rfl⟩)
    | bool | int | real | arith | div | neg | ite | eq | compare | junction | not | implies | quantified => trivial

end Term

/-! ## The reader -/

def TermSort.ofText? (text : String) : Option TermSort := [bool, int, real].find? fun s => s.text == text

def Arith.ofText? (text : String) : Option Arith := [add, sub, mul].find? fun op => op.text == text

def Comparison.ofText? (text : String) : Option Comparison := [lt, le, gt, ge].find? fun op => op.text == text

def Junction.ofText? (text : String) : Option Junction := [conj, disj].find? fun j => j.text == text

def Quantifier.ofText? (text : String) : Option Quantifier := [all, some].find? fun q => q.text == text

/-- The name that a symbol stands for. -/
def symbolName (w : String) : String :=
  match w.toList with
  | '|' :: cs => String.ofList cs.dropLast
  | _ => w

def Binder.ofSExpr? : SExpr → Option Binder
  | .list [.atom name, .atom sort] => (TermSort.ofText? sort).map fun s => ⟨symbolName name, s⟩
  | _ => none

namespace Term

/-- The literal that a word writes: digits, with `.0` behind them for a real number. -/
def ofNumeral? (w : String) : Option Term :=
  match cutAtPoint w.toList with
  | (digits, none) => if allDigits digits then some (int (ofDigits digits)) else none
  | (digits, some ['0']) => if allDigits digits then some (real (ofDigits digits)) else none
  | (_, some _) => none

/-- The term of an atom. Only numerals start with a digit. -/
def ofAtom? (w : String) : Option Term :=
  if w = "true" then some (bool true)
  else if w = "false" then some (bool false)
  else if (w.toList.head?.map Char.isDigit).getD false then ofNumeral? w
  else some (const (symbolName w) .real)

def ofUnary? (head : String) (a : Term) : Option Term :=
  if head = "-" then some (neg a) else if head = "not" then some (not a) else none

def ofBinary? (head : String) (a b : Term) : Option Term :=
  match Arith.ofText? head, Comparison.ofText? head with
  | some op, _ => some (arith op a b)
  | none, some op => some (compare op a b)
  | none, none =>
    if head = "/" then some (div a b)
    else if head = "=" then some (eq a b)
    else if head = "=>" then some (implies a b)
    else none

/-- The term of an operator and its operands. Only a junction takes any number of them. -/
def ofApp? (head : String) (args : List Term) : Option Term :=
  match Junction.ofText? head, args with
  | some _, [] => none
  | some j, t :: ts => some (junction j (t :: ts))
  | none, [a] => ofUnary? head a
  | none, [a, b] => ofBinary? head a b
  | none, [c, a, b] => if head = "ite" then some (ite c a b) else none
  | none, _ => none

mutual

/-- The term that an S-expression writes. -/
def ofSExpr? : SExpr → Option Term
  | .atom w => ofAtom? w
  | .list [] => none
  | .list (.list _ :: _) => none
  | .list (.atom head :: args) =>
    match Quantifier.ofText? head with
    | some q => ofQuantified? q args
    | none => (ofSExprs? args).bind (ofApp? head)

def ofQuantified? (q : Quantifier) : List SExpr → Option Term
  | [.list binders, body] => do
    let bs ← binders.mapM Binder.ofSExpr?
    let t ← ofSExpr? body
    return quantified q bs t
  | _ => none

def ofSExprs? : List SExpr → Option (List Term)
  | [] => some []
  | e :: es => do
    let t ← ofSExpr? e
    let ts ← ofSExprs? es
    return t :: ts

end

/-- The term that a text writes, up to what the text does not show. -/
def read? (text : String) : Option Term := (SExpr.read? text).bind ofSExpr?

end Term

/-! ## Symbols -/

theorem isPlainSymbol_iff {name : String} : isPlainSymbol name = true ↔
    ∃ c cs, name.toList = c :: cs ∧ c.isDigit = false ∧ ∀ d ∈ c :: cs, d.isAlphanum = true ∨ d ∈ symbolMarks := by
  unfold isPlainSymbol
  rcases name.toList with _ | ⟨c, cs⟩
  · simp
  · simp

/-- A name with underscores for its bars. -/
def unbarred (name : String) : String := name.map fun c => if c == '|' then '_' else c

theorem bar_not_mem_unbarred (name : String) : '|' ∉ (unbarred name).toList := by
  rw [unbarred, String.toList_map, List.mem_map]
  rintro ⟨c, -, hc⟩
  split at hc
  · exact absurd hc (by decide)
  · rename_i hne
    exact hne (by rw [hc]; rfl)

theorem unbarred_eq_self {name : String} (h : '|' ∉ name.toList) : unbarred name = name := by
  apply String.toList_injective
  rw [unbarred, String.toList_map]
  refine (List.map_congr_left fun c hc => if_neg ?_).trans (List.map_id _)
  rw [beq_iff_eq]
  rintro rfl
  exact h hc

theorem symbolText_quoted {name : String} (hplain : ¬ isPlainSymbol name = true) :
    (symbolText name).toList = '|' :: (unbarred name).toList ++ ['|'] := by
  rw [symbolText, if_neg hplain]
  simp [unbarred]

theorem marks_apart : symbolMarks.all (fun d => !SExpr.isSeparator d) = true := by decide

theorem isAlphanum_of_isSeparator {d : Char} (h : SExpr.isSeparator d = true) : d.isAlphanum = false := by
  simp only [SExpr.isSeparator, Bool.or_eq_true, beq_iff_eq] at h
  rcases h with ((rfl | rfl) | rfl) | rfl <;> decide

/-- Nothing in a plain symbol separates atoms. -/
theorem isSeparator_of_plain {d : Char} (h : d.isAlphanum = true ∨ d ∈ symbolMarks) : SExpr.isSeparator d = false := by
  rcases h with halnum | hmark
  · by_contra hsep
    rw [isAlphanum_of_isSeparator (Bool.eq_true_of_not_eq_false hsep)] at halnum
    cases halnum
  · simpa using List.all_eq_true.1 marks_apart d hmark

theorem bar_not_mem_plain {name : String} (hplain : isPlainSymbol name = true) : '|' ∉ name.toList := by
  obtain ⟨c, cs, hname, -, hall⟩ := isPlainSymbol_iff.1 hplain
  intro hbar
  exact absurd (isSeparator_of_plain (hall _ (hname ▸ hbar))) (by decide)

theorem isAtom_symbolText (name : String) : SExpr.IsAtom (symbolText name) := by
  by_cases hplain : isPlainSymbol name = true
  · rw [symbolText, if_pos hplain]
    obtain ⟨c, cs, hname, -, hall⟩ := isPlainSymbol_iff.1 hplain
    refine .inr ⟨?_, fun d hd => isSeparator_of_plain (hall d (hname ▸ hd))⟩
    rintro rfl
    cases hname
  · exact .inl ⟨(unbarred name).toList, symbolText_quoted hplain, bar_not_mem_unbarred name⟩

/-- A symbol stands for the name that it is made from, but for the bars of the name. -/
theorem symbolName_symbolText (name : String) : symbolName (symbolText name) = unbarred name := by
  by_cases hplain : isPlainSymbol name = true
  · have hbar := bar_not_mem_plain hplain
    rw [unbarred_eq_self hbar, symbolText, if_pos hplain, symbolName]
    split
    · rename_i cs hcs
      exact absurd (hcs ▸ List.mem_cons_self ..) hbar
    · rfl
  · rw [symbolName, symbolText_quoted hplain, List.cons_append]
    simp

/-- A symbol is never a numeral. -/
theorem head_symbolText (name : String) : (((symbolText name).toList.head?).map Char.isDigit).getD false = false := by
  by_cases hplain : isPlainSymbol name = true
  · rw [symbolText, if_pos hplain]
    obtain ⟨c, cs, hname, hdigit, -⟩ := isPlainSymbol_iff.1 hplain
    rw [hname]
    exact hdigit
  · rw [symbolText, if_neg hplain]
    simp

/-- A symbol is a truth value only under that name. -/
theorem symbolText_ne {name w : String} (h : name ≠ w) (hw : '|' ∉ w.toList) : symbolText name ≠ w := by
  by_cases hplain : isPlainSymbol name = true
  · rwa [symbolText, if_pos hplain]
  · rintro rfl
    rw [symbolText, if_neg hplain] at hw
    simp at hw

/-! ## Legible terms -/

theorem isAtom_of_isDigits {w : String} {digits rest : List Char} (hw : w.toList = digits ++ rest)
    (h : IsDigits digits) (hrest : rest.all (fun c => !SExpr.isSeparator c) = true) : SExpr.IsAtom w := by
  refine .inr ⟨?_, fun c hc => ?_⟩
  · rintro rfl
    exact h.1 (List.append_eq_nil_iff.1 hw.symm).1
  · rw [hw, List.mem_append] at hc
    rcases hc with hc | hc
    · refine isSeparator_of_plain (.inl ?_)
      rw [Char.isAlphanum, h.2 c hc, Bool.or_true]
    · simpa using List.all_eq_true.1 hrest c hc

namespace SExpr

theorem legible_app {head : String} {args : List SExpr} (hhead : IsAtom head) (h : ∀ e ∈ args, e.Legible) :
    (app head args).Legible :=
  legible_list.2 (List.forall_mem_cons.2 ⟨legible_atom.2 hhead, h⟩)

/-- A word of the solver language is an atom. -/
theorem isAtom_of_all {w : String} (h : (!w.isEmpty && w.toList.all fun c => !isSeparator c) = true) : IsAtom w := by
  rw [Bool.and_eq_true, List.all_eq_true] at h
  refine .inr ⟨?_, fun c hc => by simpa using h.2 c hc⟩
  rintro rfl
  simp at h

theorem legible_signed (negative : Bool) {w : String} (h : IsAtom w) : (signed negative w).Legible := by
  unfold signed
  split
  · exact legible_app (isAtom_of_all (by decide)) (List.forall_mem_singleton.2 (legible_atom.2 h))
  · exact legible_atom.2 h

theorem isAtom_natural (n : Nat) : IsAtom (toString n) :=
  isAtom_of_isDigits (List.append_nil _).symm (isDigits_toString n) rfl

theorem isAtom_decimal (n : Nat) : IsAtom (toString n ++ ".0") :=
  isAtom_of_isDigits (String.toList_append ..) (isDigits_toString n) (by decide)

theorem legible_ofRat (q : Rat) : (ofRat q).Legible := by
  have hnum := legible_signed (decide (q.num < 0)) (isAtom_decimal q.num.natAbs)
  unfold ofRat
  split
  · exact hnum
  · refine legible_app (isAtom_of_all (by decide)) (List.forall_mem_cons.2 ⟨hnum, ?_⟩)
    exact List.forall_mem_singleton.2 (legible_atom.2 (isAtom_decimal q.den))

theorem legible_ofBool (b : Bool) : (ofBool b).Legible := by
  cases b with
  | false => exact legible_atom.2 (isAtom_of_all (by decide))
  | true => exact legible_atom.2 (isAtom_of_all (by decide))

end SExpr

namespace Term

theorem toSExprs_eq (ts : List Term) : toSExprs ts = ts.map toSExpr := by
  induction ts with
  | nil => rfl
  | cons t ts ih => rw [toSExprs, ih, List.map_cons]

open SExpr in
/-- The S-expression of a term can be read back. -/
theorem legible_toSExpr (t : Term) : t.toSExpr.Legible := by
  induction t with
  | const name s => exact legible_atom.2 (isAtom_symbolText name)
  | bool b => exact legible_ofBool b
  | int n => exact legible_signed _ (isAtom_natural n.natAbs)
  | real q => exact legible_ofRat q
  | arith op a b iha ihb =>
    refine legible_app (isAtom_of_all ?_) ?_
    · cases op <;> decide
    · simp [iha, ihb]
  | div a b iha ihb =>
    exact legible_app (isAtom_of_all (by decide)) (by simp [iha, ihb])
  | neg a ih =>
    exact legible_app (isAtom_of_all (by decide)) (by simp [ih])
  | ite c a b ihc iha ihb =>
    exact legible_app (isAtom_of_all (by decide)) (by simp [ihc, iha, ihb])
  | eq a b iha ihb =>
    exact legible_app (isAtom_of_all (by decide)) (by simp [iha, ihb])
  | compare op a b iha ihb =>
    refine legible_app (isAtom_of_all ?_) ?_
    · cases op <;> decide
    · simp [iha, ihb]
  | junction j ts ih =>
    cases ts with
    | nil => exact legible_ofBool j.unit
    | cons t ts =>
      rw [toSExpr, toSExprs_eq]
      refine legible_app (isAtom_of_all ?_) ?_
      · cases j <;> decide
      · rw [← List.map_cons (f := toSExpr), List.forall_mem_map]
        exact ih
  | not a ih =>
    exact legible_app (isAtom_of_all (by decide)) (by simp [ih])
  | implies a b iha ihb =>
    exact legible_app (isAtom_of_all (by decide)) (by simp [iha, ihb])
  | quantified q binders body ih =>
    have hbinders : (SExpr.list (binders.map ofBinder)).Legible := by
      rw [legible_list, List.forall_mem_map]
      intro b hb
      refine legible_app (isAtom_symbolText b.name) (List.forall_mem_singleton.2 (legible_atom.2 (isAtom_of_all ?_)))
      cases b.sort <;> decide
    refine legible_app (isAtom_of_all ?_) ?_
    · cases q <;> decide
    · simp [hbinders, ih]

/-! ## Reading terms -/

theorem ofNumeral?_natural (n : Nat) : ofNumeral? (toString n) = some (int n) := by
  have hdigits := isDigits_toString n
  rw [ofNumeral?, cutAtPoint_of_not_mem (point_not_mem_of_isDigits hdigits)]
  simp only [allDigits_iff.2 hdigits, if_true, ofDigits_toString]

theorem cutAtPoint_decimal (n : Nat) : cutAtPoint (toString n ++ ".0").toList = ((toString n).toList, some ['0']) := by
  rw [String.toList_append]
  exact cutAtPoint_append (point_not_mem_of_isDigits (isDigits_toString n)) ['0']

theorem ofNumeral?_decimal (n : Nat) : ofNumeral? (toString n ++ ".0") = some (real n) := by
  have hdigits := isDigits_toString n
  rw [ofNumeral?, cutAtPoint_decimal]
  simp only [allDigits_iff.2 hdigits, if_true, ofDigits_toString]

theorem ofAtom?_numeral {w : String} {digits rest : List Char} (hw : w.toList = digits ++ rest)
    (h : IsDigits digits) : ofAtom? w = ofNumeral? w := by
  obtain ⟨hne, hall⟩ := h
  obtain ⟨c, cs, rfl⟩ := List.exists_cons_of_ne_nil hne
  have hc : c.isDigit = true := hall c (List.mem_cons_self ..)
  have hhead : (w.toList.head?.map Char.isDigit).getD false = true := by rw [hw]; exact hc
  have htrue : w ≠ "true" := by
    rintro rfl
    exact absurd hhead (by decide)
  have hfalse : w ≠ "false" := by
    rintro rfl
    exact absurd hhead (by decide)
  rw [ofAtom?, if_neg htrue, if_neg hfalse, if_pos hhead]

theorem ofAtom?_natural (n : Nat) : ofAtom? (toString n) = some (int n) :=
  (ofAtom?_numeral (List.append_nil _).symm (isDigits_toString n)).trans (ofNumeral?_natural n)

theorem ofAtom?_decimal (n : Nat) : ofAtom? (toString n ++ ".0") = some (real n) :=
  (ofAtom?_numeral (String.toList_append ..) (isDigits_toString n)).trans (ofNumeral?_decimal n)

theorem ofSExpr?_app {head : String} (hhead : Quantifier.ofText? head = none) (args : List SExpr) :
    ofSExpr? (.app head args) = (ofSExprs? args).bind (ofApp? head) := by
  rw [SExpr.app, ofSExpr?, hhead]

theorem ofSExpr?_signed (negative : Bool) {w : String} {t : Term} (h : ofAtom? w = some t) :
    ofSExpr? (.signed negative w) = some (signed negative t) := by
  cases negative with
  | false => exact h
  | true =>
    show ofSExpr? (.app "-" [.atom w]) = some (neg t)
    rw [ofSExpr?_app rfl, ofSExprs?, ofSExprs?, ofSExpr?, h]
    rfl

theorem ofSExpr?_ofBool (b : Bool) : ofSExpr? (.ofBool b) = some (bool b) := by
  cases b <;> rfl

theorem ofSExpr?_ofRat (q : Rat) : ofSExpr? (.ofRat q) = some (plainReal q) := by
  have hnum := ofSExpr?_signed (decide (q.num < 0)) (ofAtom?_decimal q.num.natAbs)
  have hden : ofSExpr? (.atom (toString q.den ++ ".0")) = some (real q.den) := ofAtom?_decimal q.den
  unfold SExpr.ofRat plainReal
  by_cases h : q.den = 1
  · simp only [h, if_true]
    exact hnum
  · simp only [h, if_false]
    rw [ofSExpr?_app rfl, ofSExprs?, ofSExprs?, ofSExprs?, hnum, hden]
    rfl

theorem ofSExpr?_ofBinder (b : Binder) : Binder.ofSExpr? (.ofBinder b) = some (b.rename unbarred) := by
  have hsort : TermSort.ofText? b.sort.text = some b.sort := by
    cases b.sort <;> rfl
  rw [SExpr.ofBinder, Binder.ofSExpr?, hsort, symbolName_symbolText]
  rfl

theorem mapM_ofBinder (binders : List Binder) :
    (binders.map SExpr.ofBinder).mapM Binder.ofSExpr? = some (binders.map (Binder.rename unbarred)) := by
  induction binders with
  | nil => rfl
  | cons b bs ih =>
    rw [List.map_cons, List.mapM_cons, ofSExpr?_ofBinder, ih]
    rfl

theorem ofSExprs?_map {f : Term → Term} {ts : List Term} (h : ∀ t ∈ ts, ofSExpr? t.toSExpr = some (f t).normalised) :
    ofSExprs? (ts.map toSExpr) = some (normalisedAll (ts.map f)) := by
  induction ts with
  | nil => rfl
  | cons t ts ih =>
    rw [List.forall_mem_cons] at h
    rw [List.map_cons, ofSExprs?, h.1, ih h.2]
    rfl

/-- The S-expression of a term writes what the text of the term shows, with underscores for bars. -/
theorem ofSExpr?_toSExpr (t : Term) (h : t.Everywhere NamesNoTruth) :
    ofSExpr? t.toSExpr = some (t.rename unbarred).normalised := by
  induction t with
  | const name s =>
    obtain ⟨htrue, hfalse⟩ := everywhere_const.1 h
    rw [toSExpr, ofSExpr?, ofAtom?, if_neg (symbolText_ne htrue (by decide)), if_neg (symbolText_ne hfalse (by decide)),
      head_symbolText, symbolName_symbolText]
    rfl
  | bool b => exact ofSExpr?_ofBool b
  | int n => exact ofSExpr?_signed _ (ofAtom?_natural n.natAbs)
  | real q => exact ofSExpr?_ofRat q
  | arith op a b iha ihb =>
    rw [everywhere_arith] at h
    rw [toSExpr, ofSExpr?_app (by cases op <;> rfl), ofSExprs?, ofSExprs?, ofSExprs?, iha h.2.1, ihb h.2.2]
    cases op <;> rfl
  | div a b iha ihb =>
    rw [everywhere_div] at h
    rw [toSExpr, ofSExpr?_app rfl, ofSExprs?, ofSExprs?, ofSExprs?, iha h.2.1, ihb h.2.2]
    rfl
  | neg a ih =>
    rw [everywhere_neg] at h
    rw [toSExpr, ofSExpr?_app rfl, ofSExprs?, ofSExprs?, ih h.2]
    rfl
  | ite c a b ihc iha ihb =>
    rw [everywhere_ite] at h
    rw [toSExpr, ofSExpr?_app rfl, ofSExprs?, ofSExprs?, ofSExprs?, ofSExprs?, ihc h.2.1, iha h.2.2.1, ihb h.2.2.2]
    rfl
  | eq a b iha ihb =>
    rw [everywhere_eq] at h
    rw [toSExpr, ofSExpr?_app rfl, ofSExprs?, ofSExprs?, ofSExprs?, iha h.2.1, ihb h.2.2]
    rfl
  | compare op a b iha ihb =>
    rw [everywhere_compare] at h
    rw [toSExpr, ofSExpr?_app (by cases op <;> rfl), ofSExprs?, ofSExprs?, ofSExprs?, iha h.2.1, ihb h.2.2]
    cases op <;> rfl
  | junction j ts ih =>
    rw [everywhere_junction] at h
    have hargs := ofSExprs?_map fun t ht => ih t ht (h.2 t ht)
    rw [rename_junction]
    cases ts with
    | nil => exact ofSExpr?_ofBool j.unit
    | cons t ts =>
      rw [toSExpr, toSExprs_eq, ofSExpr?_app (by cases j <;> rfl), ← List.map_cons (f := toSExpr), hargs]
      cases j <;> rfl
  | not a ih =>
    rw [everywhere_not] at h
    rw [toSExpr, ofSExpr?_app rfl, ofSExprs?, ofSExprs?, ih h.2]
    rfl
  | implies a b iha ihb =>
    rw [everywhere_implies] at h
    rw [toSExpr, ofSExpr?_app rfl, ofSExprs?, ofSExprs?, ofSExprs?, iha h.2.1, ihb h.2.2]
    rfl
  | quantified q binders body ih =>
    rw [everywhere_quantified] at h
    have hq : Quantifier.ofText? q.text = some q := by
      cases q <;> rfl
    rw [toSExpr, SExpr.app, ofSExpr?, hq]
    simp only [ofQuantified?, mapM_ofBinder, ih h.2]
    rfl

/-- Reading finds what the text of a term shows, with underscores for the bars of names. -/
theorem read?_text_unbarred {t : Term} (h : t.Everywhere NamesNoTruth) :
    read? t.text = some (t.rename unbarred).normalised := by
  rw [read?, text, SExpr.read?_text (legible_toSExpr t), Option.bind_some]
  exact ofSExpr?_toSExpr t h

/-- Reading finds what the text of a term shows. -/
theorem read?_text {t : Term} (h : t.Spellable) : read? t.text = some t.normalised := by
  have hunbarred : t.rename unbarred = t.rename id := by
    refine rename_congr fun name hname => unbarred_eq_self ?_
    rcases List.mem_append.1 hname with hname | hname
    · exact (h.constants name hname).1
    · exact h.binders name hname
  have htruth : t.Everywhere NamesNoTruth := everywhere_namesNoTruth.2 fun name hname => (h.constants name hname).2
  rw [read?_text_unbarred htruth, hunbarred, rename_id]

/-! ## The text shows nothing else -/

theorem toSExpr_signed (negative : Bool) (t : Term) {w : String} (h : t.toSExpr = .atom w) :
    (signed negative t).toSExpr = .signed negative w := by
  cases negative with
  | false => exact h
  | true =>
    show SExpr.app "-" [t.toSExpr] = SExpr.app "-" [.atom w]
    rw [h]

theorem toSExpr_int_natural (n : Nat) : (int n).toSExpr = .atom (toString n) := by
  have hneg : ¬ (n : Int) < 0 := by omega
  simp [toSExpr, SExpr.ofInt, SExpr.signed, hneg]

theorem toSExpr_real_natural (n : Nat) : (real n).toSExpr = .atom (toString n ++ ".0") := by
  have hneg : ¬ (n : Int) < 0 := by omega
  simp [toSExpr, SExpr.ofRat, SExpr.signed, hneg]

theorem toSExpr_plainReal (q : Rat) : (plainReal q).toSExpr = .ofRat q := by
  have hnum := toSExpr_signed (q.num < 0) _ (toSExpr_real_natural q.num.natAbs)
  unfold plainReal SExpr.ofRat
  by_cases h : q.den = 1
  · simp only [h, if_true]
    exact hnum
  · simp only [h, if_false]
    rw [toSExpr, hnum, toSExpr_real_natural]

theorem toSExprs_normalisedAll {ts : List Term} (h : ∀ t ∈ ts, t.normalised.toSExpr = t.toSExpr) :
    toSExprs (normalisedAll ts) = toSExprs ts := by
  induction ts with
  | nil => rfl
  | cons t ts ih =>
    rw [List.forall_mem_cons] at h
    rw [normalisedAll, toSExprs, toSExprs, h.1, ih h.2]

/-- What the text does not show makes no difference to it. -/
theorem toSExpr_normalised (t : Term) : t.normalised.toSExpr = t.toSExpr := by
  induction t with
  | const name s => rfl
  | bool b => rfl
  | int n => exact toSExpr_signed _ _ (toSExpr_int_natural n.natAbs)
  | real q => exact toSExpr_plainReal q
  | arith op a b iha ihb => rw [normalised, toSExpr, toSExpr, iha, ihb]
  | div a b iha ihb => rw [normalised, toSExpr, toSExpr, iha, ihb]
  | neg a ih => rw [normalised, toSExpr, toSExpr, ih]
  | ite c a b ihc iha ihb => rw [normalised, toSExpr, toSExpr, ihc, iha, ihb]
  | eq a b iha ihb => rw [normalised, toSExpr, toSExpr, iha, ihb]
  | compare op a b iha ihb => rw [normalised, toSExpr, toSExpr, iha, ihb]
  | junction j ts ih =>
    cases ts with
    | nil => rw [normalised, toSExpr, toSExpr]
    | cons t ts =>
      rw [List.forall_mem_cons] at ih
      rw [normalised, toSExpr, toSExpr, ih.1, toSExprs_normalisedAll ih.2]
  | not a ih => rw [normalised, toSExpr, toSExpr, ih]
  | implies a b iha ihb => rw [normalised, toSExpr, toSExpr, iha, ihb]
  | quantified q binders body ih => rw [normalised, toSExpr, toSExpr, ih]

/-- The text of a term is unambiguous: a reader finds the term up to what the text does not show, and
two terms have the same text exactly if they differ in nothing else. -/
theorem text_unambiguous {t u : Term} (ht : t.Spellable) (hu : u.Spellable) :
    read? t.text = some t.normalised ∧ (t.text = u.text ↔ t.normalised = u.normalised) := by
  refine ⟨read?_text ht, ?_, ?_⟩
  · intro h
    have hread := read?_text ht
    rw [h, read?_text hu] at hread
    exact (Option.some.inj hread).symm
  · intro h
    rw [text, text, ← t.toSExpr_normalised, ← u.toSExpr_normalised, h]

/-- A constant without a name, one with parentheses in its name, a fraction, an empty conjunction and
a quantifier without variables, written in two ways. -/
theorem text_unambiguous_quoted :
    let a := const "" .int
    let b := const "p (q) " .bool
    let t := forAll [] (implies (lt a (real (mkRat (-1) 2))) (or [b, and []]))
    let u := forAll [] (implies (lt (const "" .real) (div (neg (real 1)) (real 2)))
      (or [const "p (q) " .real, bool true]))
    t.Spellable ∧ u.Spellable ∧ t.normalised = u.normalised ∧
      read? t.text = some t.normalised ∧ (t.text = u.text ↔ t.normalised = u.normalised) := by
  intro a b t u
  have ht : t.Spellable := spellable_iff.2 (by simp [t, a, b, forAll, lt, or, and, SpellsRoot])
  have hu : u.Spellable := spellable_iff.2 (by simp [u, forAll, lt, or, SpellsRoot])
  have hsame : t.normalised = u.normalised := by
    have hnum : (mkRat (-1) 2).num = -1 := by decide
    have hden : (mkRat (-1) 2).den = 2 := by decide
    simp [t, u, a, b, forAll, lt, or, and, normalised, normalisedAll, plainReal, signed, hnum, hden, Junction.unit]
  exact ⟨ht, hu, hsame, text_unambiguous ht hu⟩

end Term

end RoadPolicy
