/-
Where reading fails. Whatever the machine on chains of open calls has read can be completed, as what is open
can be closed; so it fails on the first token after which nothing completes the tokens any more. If it
fails at the end of the input, then at the innermost operator that is still open. Which operators are open
is said by a scan of the tokens, and the machine agrees with the scan at every step.
-/
import RoadPolicy.Proofs.Computation
import RoadPolicy.Proofs.Language.ParserGrammar

namespace RoadPolicy

variable {resolves : String → Bool}

/-! ## Completions -/

section

variable (resolves)

/-- The tokens are the beginning of a token list that the parser accepts. -/
def Extensible (tokens : List Token) : Prop :=
  ∃ rest a, parseTokens resolves (tokens ++ rest) = .ok a

/-- An expression is expected after the tokens: some word can come next. -/
def OperandDue (tokens : List Token) : Prop :=
  ∃ word span, Extensible resolves (tokens ++ [⟨.word word, span⟩])

end

namespace Progress

/-- A truth value can stand wherever an operand is due. -/
theorem derives_true (resolves : String → Bool) :
    Derives resolves [⟨.word "True", ⟨0, 0⟩⟩] (.node (.literal (.bool true)) ⟨0, 0⟩ []) := by
  refine .leaf (fun op => ?_) (.literal rfl)
  cases op <;> decide

/-- After a complete operand, closing parentheses complete the expression. -/
theorem exists_closing (resolves : String → Bool) : ∀ (spine : Spine) (e : Expression), ∃ rest whole,
    List.foldlM (Progress.step resolves) (add e spine) rest = .ok (complete whole)
  | [], e => ⟨[], e, rfl⟩
  | c :: outer, e => by
    obtain ⟨rest, whole, hrest⟩ := exists_closing resolves outer (c.add e).close
    exact ⟨⟨.closeParen, ⟨0, 0⟩⟩ :: rest, whole, hrest⟩

/-- Whatever has been read can be completed. -/
theorem exists_completion (resolves : String → Bool) (p : Progress) : ∃ rest whole,
    List.foldlM (Progress.step resolves) p rest = .ok (complete whole) := by
  have hdue : ∀ spine : Spine, ∃ rest whole,
      List.foldlM (Progress.step resolves) (operand spine) rest = .ok (complete whole) := by
    intro spine
    obtain ⟨rest, whole, hrest⟩ := exists_closing resolves spine (.node (.literal (.bool true)) ⟨0, 0⟩ [])
    refine ⟨[⟨.word "True", ⟨0, 0⟩⟩] ++ rest, whole, ?_⟩
    rw [foldlM_append_ok (foldlM_of_derives (derives_true resolves) spine), hrest]
  cases p with
  | operand spine => exact hdue spine
  | called op span outer =>
    obtain ⟨rest, whole, hrest⟩ := hdue (⟨op, span, []⟩ :: outer)
    exact ⟨⟨.openParen, ⟨0, 0⟩⟩ :: rest, whole, hrest⟩
  | after c outer =>
    obtain ⟨rest, whole, hrest⟩ := exists_closing resolves outer c.close
    exact ⟨⟨.closeParen, ⟨0, 0⟩⟩ :: rest, whole, hrest⟩
  | complete e => exact ⟨[], e, rfl⟩

end Progress

/-- The machine goes on exactly as long as the tokens can be extended. -/
theorem extensible_iff {tokens : List Token} :
    Extensible resolves tokens ↔ ∃ p, tokens.foldlM (Progress.step resolves) (.operand []) = .ok p := by
  constructor
  · rintro ⟨rest, a, hparse⟩
    obtain ⟨e, he, -⟩ := parseTokens_eq_ok_iff.1 hparse
    have hrun := Progress.foldlM_of_derives he []
    rw [List.foldlM_append] at hrun
    obtain ⟨p, hp, -⟩ := bind_eq_ok hrun
    exact ⟨p, hp⟩
  · rintro ⟨p, hp⟩
    obtain ⟨rest, whole, hrest⟩ := p.exists_completion resolves
    have hread : Progress.read resolves (tokens ++ rest) = .ok whole := by
      rw [Progress.read, Progress.foldlM_append_ok hp, hrest]
      rfl
    exact ⟨rest, whole.arena, parseTokens_eq_ok_iff.2 ⟨whole, Progress.read_eq_ok_iff.1 hread, rfl⟩⟩

theorem extensible_concat_iff {tokens : List Token} {p : Progress} {tok : Token}
    (hp : tokens.foldlM (Progress.step resolves) (.operand []) = .ok p) :
    Extensible resolves (tokens ++ [tok]) ↔ ∃ q, p.step resolves tok = .ok q := by
  rw [extensible_iff, Progress.foldlM_append_ok hp]
  simp

/-- Some word can come next exactly if the machine is waiting for an operand. -/
theorem operandDue_iff {tokens : List Token} {p : Progress}
    (hp : tokens.foldlM (Progress.step resolves) (.operand []) = .ok p) :
    OperandDue resolves tokens ↔ ∃ spine, p = .operand spine := by
  constructor
  · rintro ⟨word, span, hext⟩
    obtain ⟨q, hq⟩ := (extensible_concat_iff hp).1 hext
    cases p with
    | operand spine => exact ⟨spine, rfl⟩
    | called | after | complete => cases hq
  · rintro ⟨spine, rfl⟩
    refine ⟨"True", ⟨0, 0⟩, (extensible_concat_iff hp).2 ?_⟩
    have htrue := Progress.foldlM_of_derives (Progress.derives_true resolves) spine
    rw [List.foldlM_cons] at htrue
    obtain ⟨q, hq, -⟩ := bind_eq_ok htrue
    exact ⟨q, hq⟩

/-! ## The token on which reading fails -/

theorem unknownWord_span (word : String) (span : Span) : (unknownWord word span).span = span := by
  unfold unknownWord
  split <;> rfl

theorem unknownWord_eq_unresolved_iff {word name : String} {span : Span} :
    unknownWord word span = .unresolved name span ↔ word = name ∧ isIdentifier name = true := by
  unfold unknownWord
  split
  · rename_i hid
    constructor
    · rintro ⟨⟩
      exact ⟨rfl, hid⟩
    · rintro ⟨rfl, -⟩
      rfl
  · rename_i hid
    constructor
    · intro h
      cases h
    · rintro ⟨rfl, hname⟩
      exact absurd hname hid

theorem first_fault {before : List Token} {p : Progress} {tok : Token} {err : ParseError}
    (hp : before.foldlM (Progress.step resolves) (.operand []) = .ok p) (h : p.step resolves tok = .error err) :
    Extensible resolves before ∧ ¬ Extensible resolves (before ++ [tok]) ∧ err.span = tok.span ∧
      ∀ name, err = .unresolved name tok.span ↔
        tok.kind = .word name ∧ isIdentifier name = true ∧ OperandDue resolves before ∧ Unknown resolves name := by
  refine ⟨extensible_iff.2 ⟨p, hp⟩, ?_, ?_⟩
  · rw [extensible_concat_iff hp, h]
    rintro ⟨q, hq⟩
    cases hq
  rw [operandDue_iff hp]
  rcases Progress.step_eq_error h with ⟨spine, word, rfl, hkind, hunknown, rfl⟩ | ⟨hnot, fault, -, rfl⟩
  · refine ⟨unknownWord_span word tok.span, fun name => ?_⟩
    rw [unknownWord_eq_unresolved_iff, hkind, TokenKind.word.injEq]
    constructor
    · rintro ⟨rfl, hid⟩
      exact ⟨rfl, hid, ⟨spine, rfl⟩, hunknown⟩
    · rintro ⟨rfl, hid, -⟩
      exact ⟨rfl, hid⟩
  · refine ⟨rfl, fun name => ⟨fun h => ?_, ?_⟩⟩
    · cases h
    · rintro ⟨hkind, -, ⟨spine, hspine⟩, -⟩
      exact absurd hkind (hnot spine name hspine)

/-! ## Operators that are open -/

/-- What a token does to the operators that are open, innermost first: an operator is one more, and a closing
parenthesis closes the innermost. -/
def scanOpen (opened : List Token) (tok : Token) : List Token :=
  match tok.kind with
  | .word word => if (Operator.ofWord? word).isSome then tok :: opened else opened
  | .closeParen => opened.tail
  | .openParen | .comma => opened

/-- The operators whose argument lists are not closed, innermost first. -/
def openOperators (tokens : List Token) : List Token := tokens.foldl scanOpen []

theorem mem_of_mem_scanOpen {tok next : Token} {opened : List Token} (h : tok ∈ scanOpen opened next) :
    tok ∈ opened ∨ tok = next := by
  unfold scanOpen at h
  split at h
  · split at h
    · exact (List.mem_cons.1 h).symm
    · exact .inl h
  · exact .inl (List.mem_of_mem_tail h)
  · exact .inl h
  · exact .inl h

theorem mem_of_mem_foldl_scanOpen {tok : Token} {tokens : List Token} : ∀ {opened : List Token},
    tok ∈ tokens.foldl scanOpen opened → tok ∈ opened ∨ tok ∈ tokens := by
  induction tokens with
  | nil => exact fun h => .inl h
  | cons next tokens ih =>
    intro opened h
    rcases ih h with hmem | hmem
    · rcases mem_of_mem_scanOpen hmem with hmem | rfl
      · exact .inl hmem
      · exact .inr List.mem_cons_self
    · exact .inr (List.mem_cons_of_mem _ hmem)

theorem mem_of_mem_openOperators {tok : Token} {tokens : List Token} (h : tok ∈ openOperators tokens) : tok ∈ tokens :=
  (mem_of_mem_foldl_scanOpen h).resolve_left List.not_mem_nil

/-- The operator of a call, where it stands. -/
def OpenCall.word (c : OpenCall) : Token := ⟨.word c.op.text, c.span⟩

namespace Progress

/-- The operators of the open calls, innermost first. -/
def words : Progress → List Token
  | operand spine => spine.map OpenCall.word
  | called op span outer => ⟨.word op.text, span⟩ :: outer.map OpenCall.word
  | after c outer => c.word :: outer.map OpenCall.word
  | complete _ => []

theorem words_add (e : Expression) (spine : Spine) : (add e spine).words = spine.map OpenCall.word := by
  cases spine <;> rfl

theorem words_step {p q : Progress} {tok : Token} (h : p.step resolves tok = .ok q) : q.words = scanOpen p.words tok := by
  obtain ⟨kind, span⟩ := tok
  cases p with
  | operand spine =>
    cases kind with
    | word word =>
      simp only [Progress.step] at h
      split at h
      · rename_i op hop
        cases h
        have htext := Operator.ofWord?_eq_some_iff.1 hop
        simp [scanOpen, hop, words, htext]
      · rename_i hop
        split at h
        · cases h
          rw [words_add]
          simp [scanOpen, hop, words]
        · cases h
    | openParen | closeParen | comma => cases h
  | called op start outer =>
    cases kind with
    | openParen => cases h; rfl
    | closeParen | comma | word => cases h
  | after c outer =>
    cases kind with
    | comma => cases h; rfl
    | closeParen =>
      cases h
      exact words_add c.close outer
    | openParen | word => cases h
  | complete e => cases kind <;> cases h

theorem words_foldlM {tokens : List Token} : ∀ {p q : Progress}, tokens.foldlM (Progress.step resolves) p = .ok q →
    q.words = tokens.foldl scanOpen p.words := by
  induction tokens with
  | nil =>
    intro p q h
    cases h
    rfl
  | cons tok tokens ih =>
    intro p q h
    rw [List.foldlM_cons] at h
    obtain ⟨p', hstep, h⟩ := bind_eq_ok h
    rw [ih h, words_step hstep, List.foldl_cons]

/-- At the end of the input, the place of an error is the innermost open operator. -/
theorem finish_eq_error {p : Progress} {stop : Nat} {err : ParseError} (h : p.finish stop = .error err) :
    (∀ name span, err ≠ .unresolved name span) ∧
      (p = operand [] ∧ err.span = ⟨stop, 0⟩ ∨ ∃ tok outer, p.words = tok :: outer ∧ err.span = tok.span) := by
  cases p with
  | operand spine =>
    cases spine with
    | nil => cases h; exact ⟨fun _ _ => ParseError.noConfusion, .inl ⟨rfl, rfl⟩⟩
    | cons c outer => cases h; exact ⟨fun _ _ => ParseError.noConfusion, .inr ⟨_, _, rfl, rfl⟩⟩
  | called op start outer => cases h; exact ⟨fun _ _ => ParseError.noConfusion, .inr ⟨_, _, rfl, rfl⟩⟩
  | after c outer => cases h; exact ⟨fun _ _ => ParseError.noConfusion, .inr ⟨_, _, rfl, rfl⟩⟩
  | complete e => cases h

end Progress

theorem fault_at_end {tokens : List Token} {p : Progress} {err : ParseError}
    (hp : tokens.foldlM (Progress.step resolves) (.operand []) = .ok p)
    (h : p.finish ((tokens.getLast?.map (·.span.stop)).getD 0) = .error err) :
    Extensible resolves tokens ∧ (∀ name span, err ≠ .unresolved name span) ∧
      (tokens = [] ∧ err.span = ⟨0, 0⟩ ∨ ∃ tok outer, openOperators tokens = tok :: outer ∧ err.span = tok.span) := by
  obtain ⟨hname, hplace⟩ := Progress.finish_eq_error h
  refine ⟨extensible_iff.2 ⟨p, hp⟩, hname, ?_⟩
  rcases hplace with ⟨rfl, hspan⟩ | ⟨tok, outer, hwords, hspan⟩
  · -- only the empty list leads back to where reading starts
    have hstart : (Progress.operand []).Reads resolves [] := SpineReads.start
    have hreads : SpineReads resolves tokens [] := hstart.foldlM hp
    cases hreads
    exact .inl ⟨rfl, hspan⟩
  · rw [Progress.words_foldlM hp] at hwords
    exact .inr ⟨tok, outer, hwords, hspan⟩

/-- A call that is closed is not open any more. -/
example : openOperators (tokenize "and(or(True), not(") = [⟨.word "not", ⟨14, 3⟩⟩, ⟨.word "and", ⟨0, 3⟩⟩] := by decide

end RoadPolicy
