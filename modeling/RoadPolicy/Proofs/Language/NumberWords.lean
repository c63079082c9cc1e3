/-
Which texts are numbers. A number is written in digits, possibly with a point and more digits behind it, and
these are exactly the words that the language reads as integers and decimals. The reader of decimals gives each
of them the number that it writes. Of all other texts it accepts only digits that end in a point, which it takes
for the digits alone; no decimal in an expression that has been read is such a text.
-/
import RoadPolicy.Proofs.Language.RoundTrip
import RoadPolicy.Proofs.Number.DecimalValue

namespace RoadPolicy

/-! ## Shapes -/

/-- A number as the language writes it: digits, possibly followed by a point and digits. -/
def IsNumber (cs : List Char) : Prop :=
  IsDigits cs ∨ ∃ whole fraction, cs = whole ++ '.' :: fraction ∧ IsDigits whole ∧ IsDigits fraction

/-- Digits that end in a point. -/
def EndsInPoint (cs : List Char) : Prop := ∃ digits, cs = digits ++ ['.'] ∧ IsDigits digits

/-- Digits, possibly followed by a point, possibly followed by digits. -/
def IsDecimal (cs : List Char) : Prop :=
  IsDigits cs ∨ ∃ whole fraction, cs = whole ++ '.' :: fraction ∧ IsDigits whole ∧ ∀ c ∈ fraction, c.isDigit = true

theorem isDecimal_iff {cs : List Char} : IsDecimal cs ↔ IsNumber cs ∨ EndsInPoint cs := by
  constructor
  · rintro (hdigits | ⟨whole, fraction, rfl, hwhole, hfraction⟩)
    · exact .inl (.inl hdigits)
    · by_cases hempty : fraction = []
      · subst hempty
        exact .inr ⟨whole, rfl, hwhole⟩
      · exact .inl (.inr ⟨whole, fraction, rfl, hwhole, hempty, hfraction⟩)
  · rintro ((hdigits | ⟨whole, fraction, rfl, hwhole, hfraction⟩) | ⟨digits, rfl, hdigits⟩)
    · exact .inl hdigits
    · exact .inr ⟨whole, fraction, rfl, hwhole, hfraction.2⟩
    · exact .inr ⟨digits, [], rfl, hdigits, List.forall_mem_nil _⟩

/-- What stands last in a number is a digit. -/
theorem IsNumber.not_endsInPoint {cs : List Char} (h : IsNumber cs) : ¬ EndsInPoint cs := by
  rintro ⟨digits, rfl, hdigits⟩
  rcases h with hall | ⟨whole, fraction, heq, hwhole, hfraction⟩
  · exact point_not_mem_of_isDigits hall (by simp)
  · -- both are cut at the same point, behind which there is nothing
    have hcut := cutAtPoint_append (point_not_mem_of_isDigits hdigits) []
    rw [heq, cutAtPoint_append (point_not_mem_of_isDigits hwhole)] at hcut
    cases hcut
    exact hfraction.1 rfl

/-! ## The reader of decimals -/

theorem isSome_decimal?_of_cutAtPoint {text : String} {whole : List Char} {fraction? : Option (List Char)}
    (h : cutAtPoint text.toList = (whole, fraction?)) :
    (decimal? text).isSome ↔ IsDigits whole ∧ ∀ c ∈ fraction?.getD [], c.isDigit = true := by
  have hcond : (!whole.isEmpty && (whole ++ fraction?.getD []).all Char.isDigit) = true ↔
      IsDigits whole ∧ ∀ c ∈ fraction?.getD [], c.isDigit = true := by
    simp [IsDigits, and_assoc]
  rw [← hcond, decimal?, h]
  simp only
  split
  next hread => exact iff_of_true rfl hread
  next hread => exact iff_of_false Bool.false_ne_true hread

/-- A text without a point stays whole. -/
theorem eq_of_cutAtPoint {cs whole : List Char} (h : cutAtPoint cs = (whole, none)) : cs = whole := by
  unfold cutAtPoint at h
  split at h
  · exact (Prod.mk.inj h).1
  · cases h

theorem isSome_decimal?_iff {text : String} : (decimal? text).isSome ↔ IsDecimal text.toList := by
  constructor
  · intro h
    rcases hcut : cutAtPoint text.toList with ⟨whole, _ | fraction⟩
    · obtain ⟨hwhole, -⟩ := (isSome_decimal?_of_cutAtPoint hcut).1 h
      rw [eq_of_cutAtPoint hcut]
      exact .inl hwhole
    · obtain ⟨hwhole, hfraction⟩ := (isSome_decimal?_of_cutAtPoint hcut).1 h
      exact .inr ⟨whole, fraction, eq_append_of_cutAtPoint hcut, hwhole, hfraction⟩
  · rintro (hdigits | ⟨whole, fraction, htext, hwhole, hfraction⟩)
    · have hcut := cutAtPoint_of_not_mem (point_not_mem_of_isDigits hdigits)
      exact (isSome_decimal?_of_cutAtPoint hcut).2 ⟨hdigits, List.forall_mem_nil _⟩
    · have hcut := cutAtPoint_append (point_not_mem_of_isDigits hwhole) fraction
      rw [← htext] at hcut
      exact (isSome_decimal?_of_cutAtPoint hcut).2 ⟨hwhole, hfraction⟩

/-- The reader accepts the decimals and nothing else, and gives each of them the number that it writes. -/
theorem decimal?_eq_some_iff {text : String} {q : Rat} :
    decimal? text = some q ↔ IsDecimal text.toList ∧ q = decimalValue text.toList := by
  constructor
  · intro h
    exact ⟨isSome_decimal?_iff.1 (by rw [h]; rfl), decimal?_eq h⟩
  · rintro ⟨hdecimal, rfl⟩
    obtain ⟨q, hq⟩ := Option.isSome_iff_exists.1 (isSome_decimal?_iff.2 hdecimal)
    rw [hq, decimal?_eq hq]

/-! ## The words of the language -/

/-- The language reads the word as an integer or as a decimal. -/
def ReadsAsNumber (word : String) : Prop :=
  ∃ digits, Literal.ofWord? word = some (.int digits) ∨ Literal.ofWord? word = some (.decimal digits)

theorem readsAsNumber_iff {word : String} : ReadsAsNumber word ↔ IsNumber word.toList := by
  simp only [ReadsAsNumber, Literal.ofWord?_eq_some_iff, Literal.Writes]
  constructor
  · rintro ⟨digits, ⟨-, hdigits⟩ | ⟨-, hparts⟩⟩
    · exact .inl hdigits
    · exact .inr hparts
  · rintro (hdigits | hparts)
    · exact ⟨word, .inl ⟨rfl, hdigits⟩⟩
    · exact ⟨word, .inr ⟨rfl, hparts⟩⟩

namespace Expression

variable {resolves : String → Bool}

theorem exists_of_mem_nodesAll {parent : Option NodeId} {n : Node} {es : List Expression} : ∀ {base : Nat},
    n ∈ nodesAll parent base es → ∃ e ∈ es, ∃ i, n ∈ e.nodes parent i := by
  induction es with
  | nil => intro base hn; cases hn
  | cons e es ih =>
    intro base hn
    rw [nodesAll, List.mem_append] at hn
    rcases hn with hn | hn
    · exact ⟨e, List.mem_cons_self .., base, hn⟩
    · obtain ⟨f, hf, hmem⟩ := ih hn
      exact ⟨f, List.mem_cons_of_mem _ hf, hmem⟩

/-- The leaves of an expression that can be written are read from their own texts. -/
theorem Writable.leafWord_of_mem {e : Expression} (h : e.Writable resolves) : ∀ {parent : Option NodeId} {base : Nat}
    {n : Node}, n ∈ e.nodes parent base → (∀ op, n.head ≠ .operator op) → LeafWord resolves n.head.text n.head := by
  induction h with
  | leaf _ hleaf =>
    intro parent base n hn _
    rcases List.mem_singleton.1 hn
    exact hleaf
  | call _ _ ih =>
    intro parent base n hn hhead
    rw [nodes, List.mem_cons] at hn
    rcases hn with rfl | hn
    · exact absurd rfl (hhead _)
    · obtain ⟨e, he, i, hmem⟩ := exists_of_mem_nodesAll hn
      exact ih e he hmem hhead

end Expression

/-- A decimal in an expression that has been read is a number. -/
theorem isNumber_of_parse {resolves : String → Bool} {source digits : String} {a : Arena} {id : NodeId}
    {n : Node} (h : parse resolves source = .ok a) (hn : a.node? id = some n)
    (hhead : n.head = .literal (.decimal digits)) : IsNumber digits.toList := by
  obtain ⟨e, he, rfl⟩ := parseTokens_eq_ok_iff.1 h
  have hmem : n ∈ e.nodes none 0 := List.mem_of_getElem? (by simpa [Expression.arena, Arena.node?] using hn)
  have hleaf := he.writable.leafWord_of_mem hmem fun op hop => by rw [hhead] at hop; cases hop
  rw [hhead] at hleaf
  cases hleaf with
  | literal hwrites => exact .inr hwrites.2

/-- The reader of decimals accepts numbers and, besides them, digits that end in a point; either way it returns the
number that the digits write. The language reads exactly the numbers, so the two agree on every text that does not
end in a point, and on every decimal in an expression that has been read. -/
theorem decimals_are_numbers_up_to_point (text : String) :
    (∀ q, decimal? text = some q ↔
      (IsNumber text.toList ∨ EndsInPoint text.toList) ∧ q = decimalValue text.toList) ∧
    (ReadsAsNumber text ↔ IsNumber text.toList) ∧
    (ReadsAsNumber text ↔ (decimal? text).isSome ∧ ¬ EndsInPoint text.toList) ∧
    ∀ resolves source a, parse resolves source = .ok a → ∀ id n, a.node? id = some n →
      n.head = .literal (.decimal text) → (decimal? text).isSome ∧ ReadsAsNumber text := by
  have hsome : (decimal? text).isSome ↔ IsNumber text.toList ∨ EndsInPoint text.toList :=
    isSome_decimal?_iff.trans isDecimal_iff
  refine ⟨fun q => ?_, readsAsNumber_iff, ?_, fun resolves source a ha id n hn hhead => ?_⟩
  · rw [decimal?_eq_some_iff, isDecimal_iff]
  · rw [readsAsNumber_iff, hsome]
    constructor
    · intro hnumber
      exact ⟨.inl hnumber, hnumber.not_endsInPoint⟩
    · rintro ⟨hnumber | hpoint, hnot⟩
      · exact hnumber
      · exact absurd hpoint hnot
  · have hnumber := isNumber_of_parse ha hn hhead
    exact ⟨hsome.2 (.inl hnumber), readsAsNumber_iff.2 hnumber⟩

/-- A decimal of a source, and digits with a point behind them that are no word of one. -/
theorem decimals_are_numbers_up_to_point_in_source :
    let number : Node := ⟨.literal (.decimal "2.50"), ⟨2, 4⟩, some 0, []⟩
    (∃ a, parse (fun _ => false) "<(2.50,3)" = .ok a ∧ a.node? 1 = some number) ∧
      decimal? "2.50" = some (5 / 2) ∧ ReadsAsNumber "2.50" ∧
      EndsInPoint "007.".toList ∧ decimal? "007." = some 7 ∧ ¬ ReadsAsNumber "007." := by
  intro number
  obtain ⟨hvalue, hshape, -, hsource⟩ := decimals_are_numbers_up_to_point "2.50"
  obtain ⟨hvalue', -, hreads', -⟩ := decimals_are_numbers_up_to_point "007."
  have hparse : parse (fun _ => false) "<(2.50,3)" =
      .ok ⟨#[⟨.operator .lt, ⟨0, 1⟩, none, [1, 2]⟩, number, ⟨.literal (.int "3"), ⟨7, 1⟩, some 0, []⟩], some 0⟩ := by
    cbv
  have hreads := (hsource _ _ _ hparse 1 number rfl rfl).2
  have hpoint : EndsInPoint "007.".toList := ⟨['0', '0', '7'], by decide, allDigits_iff.1 rfl⟩
  refine ⟨⟨_, hparse, rfl⟩, ?_, hreads, hpoint, ?_, fun h => (hreads'.1 h).2 hpoint⟩
  · exact (hvalue _).2 ⟨.inl (hshape.1 hreads), by cbv⟩
  · exact (hvalue' _).2 ⟨.inr hpoint, by cbv⟩

/-- The reader of decimals takes a digit and a point for a number; the language does not. -/
theorem point_behind_digit_is_read :
    decimal? "1." = some 1 ∧ Literal.ofWord? "1." = none ∧ ¬ IsNumber "1.".toList ∧
      ¬ ((decimal? "1.").isSome ↔ ReadsAsNumber "1.") := by
  have hread : decimal? "1." = some 1 := by cbv
  have hword : Literal.ofWord? "1." = none := by decide
  have hnot : ¬ ReadsAsNumber "1." := by
    rintro ⟨digits, h | h⟩
    · rw [hword] at h; cases h
    · rw [hword] at h; cases h
  refine ⟨hread, hword, fun h => hnot (readsAsNumber_iff.2 h), fun h => hnot (h.1 ?_)⟩
  rw [hread]
  rfl

end RoadPolicy
