/-
The places of errors. A source that cannot be read has its error at the first token that leaves no way to go
on, or at the innermost operator that is still open; an operator that refuses its operands has it at its own
word. All of these are places of parts of the source.
-/
import Mathlib
import RoadPolicy.Proofs.Language.FirstFault
import RoadPolicy.Proofs.Language.TokenLayout
import RoadPolicy.Proofs.Policy.CompileErrors

namespace RoadPolicy

variable {source : String}

/-- The place of a token shows its text, blanks apart. -/
theorem exists_part_of_mem {tok : Token} (h : tok ∈ tokenize source) :
    ∃ part, tok.span.IsPlaceOf source part ∧ visible part.toList = tok.kind.text.toList := by
  have hlaid : Laid 0 source.toList (tokenize source) := .of_visibleFrom 0 source.toList
  obtain ⟨before, part, after, hsource, hoffset, hlength, -, hvisible⟩ := hlaid.stretch tok h
  refine ⟨String.ofList part, ⟨String.ofList before, String.ofList after, ?_, ?_, hlength.symm⟩, ?_⟩
  · apply String.toList_injective
    simpa using hsource
  · rw [hoffset, Nat.zero_add, byteSize]
  · rwa [String.toList_ofList]

theorem Span.isPlaceOf_start (source : String) : (Span.mk 0 0).IsPlaceOf source "" :=
  ⟨"", source, by simp, rfl, rfl⟩

/-- The place of an expression is that of its first token. -/
theorem Derives.exists_mem_span {resolves : String → Bool} {tokens : List Token} {e : Expression}
    (h : Derives resolves tokens e) (base : Nat) : ∃ tok ∈ tokens, tok.span = (e.tree base).span := by
  cases h with
  | leaf => exact ⟨_, List.mem_cons_self, rfl⟩
  | call => exact ⟨_, List.mem_cons_self, rfl⟩

/-- How reading fails: on the first token after which nothing completes the tokens, or at the end. -/
theorem parse_fault {resolves : String → Bool} {err : ParseError} (h : parse resolves source = .error err) :
    (∃ before tok after, tokenize source = before ++ tok :: after ∧ Extensible resolves before ∧
      ¬ Extensible resolves (before ++ [tok]) ∧ err.span = tok.span ∧
      ∀ name, err = .unresolved name tok.span ↔
        tok.kind = .word name ∧ isIdentifier name = true ∧ OperandDue resolves before ∧ Unknown resolves name) ∨
    Extensible resolves (tokenize source) ∧ (∀ name span, err ≠ .unresolved name span) ∧
      (tokenize source = [] ∧ err.span = ⟨0, 0⟩ ∨
        ∃ tok outer, openOperators (tokenize source) = tok :: outer ∧ err.span = tok.span) := by
  rcases Progress.read_eq_error (parseTokens_eq_error_iff.1 h) with ⟨before, tok, after, p, htokens, hp, hstep⟩ |
    ⟨p, hp, hfinish⟩
  · exact .inl ⟨before, tok, after, htokens, first_fault hp hstep⟩
  · exact .inr (fault_at_end hp hfinish)

/-- An error of reading is at a token, or at the very start. -/
theorem parse_error_place {resolves : String → Bool} {err : ParseError} (h : parse resolves source = .error err) :
    ∃ part, err.span.IsPlaceOf source part := by
  have hat : ∀ tok ∈ tokenize source, err.span = tok.span → ∃ part, err.span.IsPlaceOf source part := by
    intro tok htok hspan
    obtain ⟨part, hplace, -⟩ := exists_part_of_mem htok
    exact ⟨part, hspan ▸ hplace⟩
  rcases parse_fault h with ⟨before, tok, after, htokens, -, -, hspan, -⟩ |
    ⟨-, -, ⟨-, hspan⟩ | ⟨tok, outer, hopen, hspan⟩⟩
  · exact hat tok (by simp [htokens]) hspan
  · exact ⟨"", hspan ▸ Span.isPlaceOf_start source⟩
  · exact hat tok (mem_of_mem_openOperators (by simp [hopen])) hspan

/-- Errors stand where they are said to stand, for every source.

A source that cannot be read has a first token after which nothing completes the tokens to an expression, and the error
is at the place of this token; it is about an unresolved name exactly if the token is a word in the form of an
identifier, where an expression is expected, that is no operator, literal, marker or defined name, and then it shows
this word. Or all tokens can be completed, and the error is at the innermost operator that is open, or at the start if
there are no tokens.

Whatever the error with which a source fails to compile, its place is one in the source, between characters; and if an
operator refuses its operands, then the place shows this operator. -/
theorem errors_located (source : String) :
    (∀ (resolves : String → Bool) (err : ParseError), parse resolves source = .error err →
      (∃ before tok after part, tokenize source = before ++ tok :: after ∧ Extensible resolves before ∧
        ¬ Extensible resolves (before ++ [tok]) ∧ err.span = tok.span ∧
        (∀ name, err = .unresolved name tok.span ↔
          tok.kind = .word name ∧ isIdentifier name = true ∧ OperandDue resolves before ∧ Unknown resolves name) ∧
        tok.span.IsPlaceOf source part ∧ visible part.toList = tok.kind.text.toList) ∨
      Extensible resolves (tokenize source) ∧ (∀ name span, err ≠ .unresolved name span) ∧
        (tokenize source = [] ∧ err.span = ⟨0, 0⟩ ∨
          ∃ tok outer, openOperators (tokenize source) = tok :: outer ∧ err.span = tok.span)) ∧
    ∀ (registry : Registry) (names names' : NameSupply) (err : CompileError),
      (compile registry source).run.run names = (.error err, names') →
        ∃ part, err.span.IsPlaceOf source part ∧
          ∀ op cause span, err = .lower (.typeMismatch op cause span) → visible part.toList = op.text.toList := by
  refine ⟨fun resolves err h => ?_, fun registry names names' err h => ?_⟩
  · rcases parse_fault h with ⟨before, tok, after, htokens, hbefore, hno, hspan, hname⟩ | hend
    · have hmem : tok ∈ tokenize source := by simp [htokens]
      obtain ⟨part, hplace, hvisible⟩ := exists_part_of_mem hmem
      exact .inl ⟨before, tok, after, part, htokens, hbefore, hno, hspan, hname, hplace, hvisible⟩
    · exact .inr hend
  · rcases compile_eq_error h with ⟨fault, hparse, rfl, -⟩ | ⟨cause, hrefused, rfl⟩ | ⟨e, o, -, he, -, -, rfl⟩
    · obtain ⟨part, hplace⟩ := parse_error_place hparse
      refine ⟨part, hplace, ?_⟩
      rintro op cause span ⟨⟩
    · obtain ⟨op, cause, span, rfl, hmem, -⟩ := hrefused
      obtain ⟨part, hplace, hvisible⟩ := exists_part_of_mem hmem
      refine ⟨part, hplace, ?_⟩
      rintro op' cause' span' ⟨⟩
      exact hvisible
    · obtain ⟨tok, htok, hspan⟩ := he.exists_mem_span 0
      obtain ⟨part, hplace, -⟩ := exists_part_of_mem htok
      refine ⟨part, hspan ▸ hplace, ?_⟩
      rintro op cause span ⟨⟩

/-- A name and an operator with blanks inside, the one in the operator of three bytes. -/
theorem errors_located_split_words :
    let source := "not(>\u3000=(1, a b))"
    let resolves : String → Bool := fun _ => false
    let flag := Value.term (.boolConst "ab")
    let registry := Registry.empty.define .user "ab" flag
    let cause := LowerError.typeMismatch .ge (.expectedNumber (.value flag.kind)) ⟨4, 5⟩
    parse resolves source = .error (.unresolved "ab" ⟨13, 3⟩) ∧
      (compile registry source).run.run ⟨0⟩ = (.error (.lower cause), ⟨0⟩) ∧
      (∃ before tok after part, tokenize source = before ++ tok :: after ∧ Extensible resolves before ∧
        ¬ Extensible resolves (before ++ [tok]) ∧ tok = ⟨.word "ab", ⟨13, 3⟩⟩ ∧ OperandDue resolves before ∧
        tok.span.IsPlaceOf source part ∧ visible part.toList = ['a', 'b']) ∧
      ∃ part, (Span.mk 4 5).IsPlaceOf source part ∧ visible part.toList = ['>', '='] := by
  intro source resolves flag registry cause
  have hparse : parse resolves source = .error (.unresolved "ab" ⟨13, 3⟩) := by cbv
  have hcompile : (compile registry source).run.run ⟨0⟩ = (.error (.lower cause), ⟨0⟩) := by cbv
  obtain ⟨hread, hall⟩ := errors_located source
  obtain ⟨part, hplace, hshown⟩ := hall registry ⟨0⟩ ⟨0⟩ _ hcompile
  refine ⟨hparse, hcompile, ?_, part, hplace, hshown .ge _ _ rfl⟩
  rcases hread resolves _ hparse with
    ⟨before, ⟨kind, span⟩, after, part, htokens, hbefore, hno, hspan, hname, hplace, hshown⟩ | ⟨-, hno, -⟩
  · obtain ⟨rfl : span = ⟨13, 3⟩⟩ := hspan.symm
    obtain ⟨rfl : kind = .word "ab", -, hdue, -⟩ := (hname "ab").1 rfl
    exact ⟨before, _, after, part, htokens, hbefore, hno, rfl, hdue, hplace, hshown⟩
  · exact absurd rfl (hno "ab" ⟨13, 3⟩)

end RoadPolicy
