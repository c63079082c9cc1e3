/-
The grammar of the policy language. An expression is an operator with one or more arguments in
parentheses, or a leaf; a leaf is a word that writes no operator but a literal or, if it writes none,
a marker or, if it writes none either, a name that resolves. The classes of words are given by what
their members look like, and the readers of words are shown to recognize exactly these.
-/
import Mathlib.Data.List.TakeWhile
import RoadPolicy.Language.Parser
import RoadPolicy.Proofs.Language.Expression

namespace RoadPolicy

/-! ## Words -/

/-- In a complete table of distinct words, a word is found exactly where it is written. -/
theorem find?_text_eq_some_iff {α : Type} {all : List α} {text : α → String} (hall : ∀ x, x ∈ all)
    (hinj : Function.Injective text) {word : String} {x : α} :
    (all.find? fun y => text y == word) = some x ↔ text x = word := by
  constructor
  · intro h
    simpa using List.find?_some h
  · intro h
    rcases hf : all.find? fun y => text y == word with _ | y
    · rw [List.find?_eq_none] at hf
      exact absurd (by simpa using h) (hf x (hall x))
    · have hy : text y = word := by simpa using List.find?_some hf
      rw [hinj (hy.trans h.symm)]

theorem Operator.text_injective : Function.Injective Operator.text := by
  intro op op'
  cases op <;> cases op' <;> decide

theorem Operator.ofWord?_eq_some_iff {word : String} {op : Operator} : ofWord? word = some op ↔ op.text = word :=
  find?_text_eq_some_iff mem_all text_injective

theorem Operator.ofWord?_eq_none_iff {word : String} : ofWord? word = none ↔ ∀ op : Operator, op.text ≠ word := by
  rw [Option.eq_none_iff_forall_ne_some]
  exact forall_congr' fun op => not_congr ofWord?_eq_some_iff

theorem Marker.mem_all (m : Marker) : m ∈ all := by
  rcases m with c | d
  · cases c <;> decide
  · cases d <;> decide

theorem Marker.text_injective : Function.Injective Marker.text := by
  intro m m'
  rcases m with c | d <;> rcases m' with c' | d'
  · cases c <;> cases c' <;> decide
  · cases c <;> cases d' <;> decide
  · cases d <;> cases c' <;> decide
  · cases d <;> cases d' <;> decide

theorem Marker.ofWord?_eq_some_iff {word : String} {m : Marker} : ofWord? word = some m ↔ m.text = word :=
  find?_text_eq_some_iff mem_all text_injective

theorem Marker.ofWord?_eq_none_iff {word : String} : ofWord? word = none ↔ ∀ m : Marker, m.text ≠ word := by
  rw [Option.eq_none_iff_forall_ne_some]
  exact forall_congr' fun m => not_congr ofWord?_eq_some_iff

/-- One or more decimal digits. -/
def IsDigits (cs : List Char) : Prop := cs ≠ [] ∧ ∀ c ∈ cs, c.isDigit = true

theorem allDigits_iff {cs : List Char} : allDigits cs = true ↔ IsDigits cs := by
  simp [allDigits, IsDigits]

theorem point_not_mem_of_isDigits {cs : List Char} (h : IsDigits cs) : '.' ∉ cs :=
  fun hmem => absurd (h.2 _ hmem) (by decide)

theorem cutAtPoint_of_not_mem {cs : List Char} (h : '.' ∉ cs) : cutAtPoint cs = (cs, none) := by
  have hdrop : cs.dropWhile (· != '.') = [] := by
    rw [List.dropWhile_eq_nil_iff]
    exact fun c hc => bne_iff_ne.2 fun he => h (he ▸ hc)
  unfold cutAtPoint
  rw [hdrop]

/-- A text with a point is cut at the first one. -/
theorem cutAtPoint_append {whole : List Char} (h : '.' ∉ whole) (fraction : List Char) :
    cutAtPoint (whole ++ '.' :: fraction) = (whole, some fraction) := by
  have hw : ∀ c ∈ whole, (c != '.') = true := fun c hc => by
    simp only [bne_iff_ne]
    rintro rfl
    exact h hc
  unfold cutAtPoint
  rw [List.dropWhile_append_of_pos hw, List.takeWhile_append_of_pos hw]
  simp

theorem eq_append_of_cutAtPoint {cs whole fraction : List Char} (h : cutAtPoint cs = (whole, some fraction)) :
    cs = whole ++ '.' :: fraction := by
  unfold cutAtPoint at h
  split at h
  · cases h
  · rename_i c rest hd
    cases h
    have hc : c = '.' := by
      have := List.head?_dropWhile_not (· != '.') cs
      rw [hd] at this
      simpa using this
    calc cs = cs.takeWhile (· != '.') ++ cs.dropWhile (· != '.') := List.takeWhile_append_dropWhile.symm
      _ = _ := by rw [hd, hc]

/-- What the words of a literal look like: digits, digits with a point between them, or the name of
a truth value. -/
def Literal.Writes : Literal → String → Prop
  | int digits, word => digits = word ∧ IsDigits word.toList
  | decimal digits, word =>
    digits = word ∧ ∃ whole fraction, word.toList = whole ++ '.' :: fraction ∧ IsDigits whole ∧ IsDigits fraction
  | bool b, word => word = if b then "True" else "False"

theorem Literal.writes_of_ofWord? {word : String} {l : Literal} (h : ofWord? word = some l) : l.Writes word := by
  unfold ofWord? at h
  split at h
  · rename_i hw; cases h; exact hw
  split at h
  · rename_i hw; cases h; exact hw
  split at h
  · rename_i hd; cases h; exact ⟨rfl, allDigits_iff.1 hd⟩
  split at h
  · rename_i whole fraction hcut
    split at h
    · rename_i hd
      cases h
      rw [Bool.and_eq_true, allDigits_iff, allDigits_iff] at hd
      exact ⟨rfl, whole, fraction, eq_append_of_cutAtPoint hcut, hd.1, hd.2⟩
    · cases h
  · cases h

/-- The reader of literals recognizes exactly their words. -/
theorem Literal.ofWord?_eq_some_iff {word : String} {l : Literal} : ofWord? word = some l ↔ l.Writes word := by
  refine ⟨writes_of_ofWord?, fun h => ?_⟩
  rcases l with digits | digits | b
  · obtain ⟨rfl, hd⟩ := h
    -- no digit starts the name of a truth value
    have ht : digits ≠ "True" := by rintro rfl; exact absurd (hd.2 'T' (by decide)) (by decide)
    have hf : digits ≠ "False" := by rintro rfl; exact absurd (hd.2 'F' (by decide)) (by decide)
    rw [ofWord?, if_neg ht, if_neg hf, if_pos (allDigits_iff.2 hd)]
  · obtain ⟨rfl, whole, fraction, hw, h1, h2⟩ := h
    have hpoint : '.' ∈ digits.toList := by rw [hw]; exact List.mem_append_right _ (List.mem_cons_self ..)
    have ht : digits ≠ "True" := by rintro rfl; exact absurd hpoint (by decide)
    have hf : digits ≠ "False" := by rintro rfl; exact absurd hpoint (by decide)
    have hd : ¬ allDigits digits.toList = true := fun h => point_not_mem_of_isDigits (allDigits_iff.1 h) hpoint
    rw [ofWord?, if_neg ht, if_neg hf, if_neg hd, hw, cutAtPoint_append (point_not_mem_of_isDigits h1)]
    simp [allDigits_iff.2 h1, allDigits_iff.2 h2]
  · cases b <;> cases h <;> rfl

theorem Literal.ofWord?_eq_none_iff {word : String} : ofWord? word = none ↔ ∀ l : Literal, ¬ l.Writes word := by
  rw [Option.eq_none_iff_forall_ne_some]
  exact forall_congr' fun l => not_congr ofWord?_eq_some_iff

/-- The leaves that a word can be: the first class that it belongs to decides. -/
inductive LeafWord (resolves : String → Bool) (word : String) : Head → Prop
  | literal {l : Literal} : l.Writes word → LeafWord resolves word (.literal l)
  | marker {m : Marker} : (∀ l : Literal, ¬ l.Writes word) → m.text = word → LeafWord resolves word (.marker m)
  | name : (∀ l : Literal, ¬ l.Writes word) → (∀ m : Marker, m.text ≠ word) → resolves word = true →
      LeafWord resolves word (.symbol word)

theorem leafOfWord?_eq_some_iff {resolves : String → Bool} {word : String} {head : Head} :
    leafOfWord? resolves word = some head ↔ LeafWord resolves word head := by
  unfold leafOfWord?
  rcases hl : Literal.ofWord? word with _ | l
  · have hl' := Literal.ofWord?_eq_none_iff.1 hl
    rcases hm : Marker.ofWord? word with _ | m
    · have hm' := Marker.ofWord?_eq_none_iff.1 hm
      simp only
      constructor
      · intro h
        split at h
        · rename_i hr; cases h; exact .name hl' hm' hr
        · cases h
      · rintro (h | ⟨_, h⟩ | ⟨_, _, hr⟩)
        · exact absurd h (hl' _)
        · exact absurd h (hm' _)
        · rw [if_pos hr]
    · have hm' := Marker.ofWord?_eq_some_iff.1 hm
      simp only
      constructor
      · rintro ⟨⟩; exact .marker hl' hm'
      · rintro (h | ⟨_, h⟩ | ⟨_, h, _⟩)
        · exact absurd h (hl' _)
        · rw [Marker.text_injective (hm'.trans h.symm)]
        · exact absurd hm' (h m)
  · have hl' := Literal.ofWord?_eq_some_iff.1 hl
    simp only
    constructor
    · rintro ⟨⟩; exact .literal hl'
    · rintro (h | ⟨h, _⟩ | ⟨h, _, _⟩)
      · have := Literal.ofWord?_eq_some_iff.2 h
        rw [hl] at this
        cases this; rfl
      · exact absurd hl' (h l)
      · exact absurd hl' (h l)

theorem leafOfWord?_eq_none_iff {resolves : String → Bool} {word : String} :
    leafOfWord? resolves word = none ↔
      (∀ l : Literal, ¬ l.Writes word) ∧ (∀ m : Marker, m.text ≠ word) ∧ resolves word = false := by
  rw [← Literal.ofWord?_eq_none_iff, ← Marker.ofWord?_eq_none_iff]
  unfold leafOfWord?
  rcases Literal.ofWord? word with _ | l
  · rcases Marker.ofWord? word with _ | m <;> simp
  · simp

/-- A word that writes no operator and no leaf. -/
structure Unknown (resolves : String → Bool) (word : String) : Prop where
  operator : ∀ op : Operator, op.text ≠ word
  literal : ∀ l : Literal, ¬ l.Writes word
  marker : ∀ m : Marker, m.text ≠ word
  name : resolves word = false

theorem unknown_iff {resolves : String → Bool} {word : String} :
    Unknown resolves word ↔ Operator.ofWord? word = none ∧ leafOfWord? resolves word = none := by
  rw [Operator.ofWord?_eq_none_iff, leafOfWord?_eq_none_iff]
  constructor
  · intro h
    exact ⟨h.operator, h.literal, h.marker, h.name⟩
  · rintro ⟨hop, hl, hm, hr⟩
    exact ⟨hop, hl, hm, hr⟩

/-! ## Derivations -/

section

variable (resolves : String → Bool)

mutual

/-- The tokens of an expression. The place of a node is the place of its word. -/
inductive Derives : List Token → Expression → Prop
  | leaf {word : String} {span : Span} {head : Head} : (∀ op : Operator, op.text ≠ word) →
      LeafWord resolves word head → Derives [⟨.word word, span⟩] (.node head span [])
  | call {op : Operator} {span opening closing : Span} {tokens : List Token} {args : List Expression} :
      DerivesArgs tokens args →
      Derives (⟨.word op.text, span⟩ :: ⟨.openParen, opening⟩ :: (tokens ++ [⟨.closeParen, closing⟩]))
        (.node (.operator op) span args)

/-- The tokens of one or more arguments with commas between them. -/
inductive DerivesArgs : List Token → List Expression → Prop
  | one {tokens : List Token} {e : Expression} : Derives tokens e → DerivesArgs tokens [e]
  | more {tokens rest : List Token} {comma : Span} {e : Expression} {es : List Expression} :
      Derives tokens e → DerivesArgs rest es → DerivesArgs (tokens ++ ⟨.comma, comma⟩ :: rest) (e :: es)

end

end

namespace DerivesArgs

variable {resolves : String → Bool}

theorem ne_nil {tokens : List Token} {args : List Expression} (h : DerivesArgs resolves tokens args) : args ≠ [] := by
  cases h <;> simp

/-- One more argument at the end. -/
theorem snoc {last : List Token} {comma : Span} {f : Expression} (hf : Derives resolves last f) :
    ∀ {tokens : List Token} {args : List Expression}, DerivesArgs resolves tokens args →
      DerivesArgs resolves (tokens ++ ⟨.comma, comma⟩ :: last) (args ++ [f])
  | _, _, .one he => .more he (.one hf)
  | _, _, .more he hes => by
    rw [List.append_assoc]
    exact .more he (snoc hf hes)

end DerivesArgs

end RoadPolicy
