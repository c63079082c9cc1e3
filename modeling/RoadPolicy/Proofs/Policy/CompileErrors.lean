/-
What compiling can fail with. The leaves of what has been read can all be lowered: the words of literals
write numbers, and names are read only if the registry defines them. So lowering fails at an operator that
refuses its operands, or in the end if the whole expression is no formula. An operator that is given as
many operands as it asks for finds each one that it reads.
-/
import Mathlib
import RoadPolicy.Proofs.Policy.TidyCompile
import RoadPolicy.Proofs.Policy.TypeSoundness

namespace RoadPolicy

variable {registry : Registry} {names names' : NameSupply}

/-! ## Operands of the right number -/

/-- Nothing is wrong with the number of operands. -/
def NotForArity {α : Type} (result : Except ApplyError α) : Prop :=
  ∀ expected found, result ≠ .error (.arity expected found)

namespace NotForArity

variable {α β : Type}

@[simp] theorem ok (x : α) : NotForArity (.ok x) := fun _ _ h => by cases h

@[simp] theorem error_iff {e : ApplyError} :
    NotForArity (.error e : Except ApplyError α) ↔ ∀ expected found, e ≠ .arity expected found := by
  simp [NotForArity]

theorem bind {x : Except ApplyError α} {f : α → Except ApplyError β} (hx : NotForArity x)
    (hf : ∀ a, NotForArity (f a)) : NotForArity (x >>= f) := by
  cases x with
  | error e => exact error_iff.2 (error_iff.1 hx)
  | ok a => exact hf a

theorem mapM {f : α → Except ApplyError β} (hf : ∀ a, NotForArity (f a)) (xs : List α) : NotForArity (xs.mapM f) := by
  induction xs with
  | nil => exact .ok []
  | cons x xs ih =>
    rw [List.mapM_cons]
    exact (hf x).bind fun _ => ih.bind fun _ => .ok _

end NotForArity

namespace Operand

variable (a b : Operand)

theorem number_notForArity : NotForArity a.number := by
  unfold number
  split
  · split <;> simp
  · simp

theorem boolean_notForArity : NotForArity a.boolean := by
  unfold boolean
  split
  · split <;> simp
  · simp

theorem comparable_notForArity : NotForArity (a.comparable b) := by
  unfold comparable
  split
  · split <;> simp
  · simp

theorem figures_notForArity : NotForArity (a.figures b) := by
  unfold figures
  split <;> simp

theorem objects_notForArity : NotForArity (a.objects b) := by
  unfold objects
  split <;> simp

theorem colorSignal_notForArity : NotForArity a.colorSignal := by
  unfold colorSignal
  split
  all_goals split <;> simp

theorem turnSignal_notForArity : NotForArity a.turnSignal := by
  unfold turnSignal
  split
  · simp
  · split <;> simp

theorem color_notForArity : NotForArity a.color := by
  unfold color
  split <;> simp

theorem direction_notForArity : NotForArity a.direction := by
  unfold direction
  split <;> simp

end Operand

namespace Operator

open Operand

variable {args : List Operand} {a b : Operand}

theorem notForArity_numbers (f : Term → Term → Term) : NotForArity (numbers a b f) :=
  a.number_notForArity.bind fun _ => b.number_notForArity.bind fun _ => .ok _

theorem notForArity_spatial {result : Option (Naming Term)} {e : ApplyError}
    (he : NotForArity (.error e : Except ApplyError Term)) : NotForArity ((spatial result e).run.run names).1 := by
  rcases result with _ | naming
  · exact he
  · exact .ok _

theorem notForArity_figures {relation : Figure → Figure → Option (Naming Term)} {err : Figure → Figure → ApplyError}
    (herr : ∀ f g, NotForArity (.error (err f g) : Except ApplyError Term)) :
    NotForArity ((match a.figures b with
      | .ok (f, g) => spatial (relation f g) (err f g)
      | .error e => throw e : Applying Term).run.run names).1 := by
  have hread := a.figures_notForArity b
  rcases hfg : a.figures b with e | ⟨f, g⟩
  · rw [hfg] at hread
    exact NotForArity.error_iff.2 (NotForArity.error_iff.1 hread)
  · exact notForArity_spatial (herr f g)

theorem notForArity_encounter (k : Encounter) : NotForArity ((encounter k a b).run.run names).1 := by
  have hread := a.objects_notForArity b
  unfold encounter
  rcases hop : a.objects b with e | ⟨o, p⟩
  · rw [hop] at hread
    exact NotForArity.error_iff.2 (NotForArity.error_iff.1 hread)
  · exact notForArity_spatial (by simp)

/-- Operands of the right number are all read: the case that is left for the others is never reached. -/
theorem notForArity_onOperands (op : Operator) (hn : op.arity.accepts args.length = true) (names : NameSupply) :
    NotForArity ((op.onOperands args).run.run names).1 := by
  have hsingle : args.length = 1 → ∃ a, args = [a] := List.length_eq_one_iff.1
  have hpair : args.length = 2 → ∃ a b, args = [a, b] := List.length_eq_two.1
  cases op with
  | and | or => exact (NotForArity.mapM boolean_notForArity args).bind fun _ => .ok _
  | not =>
    obtain ⟨a, rfl⟩ := hsingle (length_of_accepts hn)
    exact a.boolean_notForArity.bind fun _ => .ok _
  | eq | ne =>
    obtain ⟨a, b, rfl⟩ := hpair (length_of_accepts hn)
    exact (a.comparable_notForArity b).bind fun _ => .ok _
  | lt | le | gt | ge | add | mul | div =>
    obtain ⟨a, b, rfl⟩ := hpair (length_of_accepts hn)
    exact notForArity_numbers _
  | sub =>
    have hlen : args.length = 1 ∨ args.length = 2 := by simpa [arity, Arity.accepts] using hn
    rcases hlen with hlen | hlen
    · obtain ⟨a, rfl⟩ := hsingle hlen
      exact a.number_notForArity.bind fun _ => .ok _
    · obtain ⟨a, b, rfl⟩ := hpair hlen
      exact notForArity_numbers _
  | abs =>
    obtain ⟨a, rfl⟩ := hsingle (length_of_accepts hn)
    exact a.number_notForArity.bind fun _ => .ok _
  | inside | cross =>
    obtain ⟨a, b, rfl⟩ := hpair (length_of_accepts hn)
    exact notForArity_figures (by simp)
  | isColor =>
    obtain ⟨a, b, rfl⟩ := hpair (length_of_accepts hn)
    exact a.colorSignal_notForArity.bind fun _ => b.color_notForArity.bind fun _ => .ok _
  | isDirection =>
    obtain ⟨a, b, rfl⟩ := hpair (length_of_accepts hn)
    exact a.turnSignal_notForArity.bind fun _ => b.direction_notForArity.bind fun _ => .ok _
  | stCross | stAbove | stBelow =>
    obtain ⟨a, b, rfl⟩ := hpair (length_of_accepts hn)
    exact notForArity_encounter _

theorem apply_eq_arity_iff (op : Operator) (args : List Operand) (names : NameSupply) {expected : Arity} {found : Nat} :
    ((op.apply args).run.run names).1 = .error (.arity expected found) ↔
      op.arity.accepts args.length = false ∧ expected = op.arity ∧ found = args.length := by
  by_cases hn : op.arity.accepts args.length = true
  · rw [apply, if_pos hn]
    constructor
    · intro h
      exact absurd h (notForArity_onOperands op hn names expected found)
    · rintro ⟨hnot, -⟩
      rw [hn] at hnot
      cases hnot
  · rw [apply, if_neg hn]
    constructor
    · intro h
      cases h
      exact ⟨Bool.not_eq_true _ ▸ hn, rfl, rfl⟩
    · rintro ⟨-, rfl, rfl⟩
      rfl

end Operator

/-! ## Expressions that have been read -/

/-- A leaf that has been read can be lowered, and takes no name. -/
theorem LeafWord.run_operand {word : String} {head : Head} (h : LeafWord registry.resolves word head) (span : Span)
    (args : List Operand) (names : NameSupply) :
    ∃ o, (head.operand registry span args).run.run names = (.ok o, names) := by
  cases h with
  | literal hwrites =>
    obtain ⟨t, ht, -⟩ := hwrites.term?
    rw [Head.operand, ht]
    exact ⟨.term t, rfl⟩
  | @marker m => exact ⟨.marker m, rfl⟩
  | name _ _ hresolves =>
    obtain ⟨v, hv⟩ := Option.isSome_iff_exists.1 hresolves
    rw [Head.operand, hv]
    exact ⟨.value v, rfl⟩

/-- An operator among the tokens has refused its operands, at its own place. -/
def RefusedAt (tokens : List Token) (err : LowerError) (names' : NameSupply) : Prop :=
  ∃ op cause span, err = .typeMismatch op cause span ∧ ⟨.word op.text, span⟩ ∈ tokens ∧
    ∃ args names, (op.apply args).run.run names = (.error cause, names')

theorem RefusedAt.mono {tokens tokens' : List Token} {err : LowerError} (h : RefusedAt tokens err names')
    (hsub : tokens ⊆ tokens') : RefusedAt tokens' err names' := by
  obtain ⟨op, cause, span, herr, hmem, hrefused⟩ := h
  exact ⟨op, cause, span, herr, hsub hmem, hrefused⟩

mutual

/-- What has been read can be lowered, unless an operator refuses its operands. -/
theorem Derives.refusedAt : ∀ {tokens : List Token} {e : Expression}, Derives registry.resolves tokens e →
    ∀ {base : Nat} {names names' : NameSupply} {err : LowerError},
      ((e.tree base).lower registry).run.run names = (.error err, names') → RefusedAt tokens err names'
  | _, _, @Derives.leaf _ word span head _ hleaf, base, names, names', err, h => by
    obtain ⟨o, ho⟩ := hleaf.run_operand span [] names
    rw [run_lower_leaf, ho] at h
    cases h
  | _, _, @Derives.call _ op span opening closing tokens args hargs, base, names, names', err, h => by
    rw [Expression.tree, Tree.lower] at h
    rcases run_bind_eq_error h with hall | ⟨os, names₁, -, h⟩
    · have hsub : tokens ⊆ ⟨.word op.text, span⟩ :: ⟨.openParen, opening⟩ :: (tokens ++ [⟨.closeParen, closing⟩]) :=
        fun tok htok => by simp [htok]
      exact (hargs.refusedAt hall).mono hsub
    · rw [Tree.run_operator] at h
      rcases happly : (op.apply os).run.run names₁ with ⟨cause | t, names₂⟩
      · rw [happly] at h
        cases h
        exact ⟨op, cause, span, rfl, List.mem_cons_self .., os, names₁, happly⟩
      · rw [happly] at h
        cases h

theorem DerivesArgs.refusedAt : ∀ {tokens : List Token} {es : List Expression},
    DerivesArgs registry.resolves tokens es → ∀ {base : Nat} {names names' : NameSupply} {err : LowerError},
      (Tree.lowerAll registry (Expression.treeAll base es)).run.run names = (.error err, names') →
        RefusedAt tokens err names'
  | _, _, .one he, base, names, names', err, h => by
    rw [Expression.treeAll, Tree.lowerAll] at h
    rcases run_bind_eq_error h with hfirst | ⟨o, names₁, -, h⟩
    · exact he.refusedAt hfirst
    · cases h
  | _, _, @DerivesArgs.more _ tokens rest comma e es he hes, base, names, names', err, h => by
    rw [Expression.treeAll, Tree.lowerAll] at h
    rcases run_bind_eq_error h with hfirst | ⟨o, names₁, -, h⟩
    · exact (he.refusedAt hfirst).mono (List.subset_append_left ..)
    · rcases run_bind_eq_error h with hrest | ⟨os, names₂, -, h⟩
      · have hsub : rest ⊆ tokens ++ ⟨.comma, comma⟩ :: rest := fun tok htok => by simp [htok]
        exact (hes.refusedAt hrest).mono hsub
      · cases h

end

/-! ## Sources -/

/-- What an operand is called where a formula is asked for. -/
def Operand.nonFormula : Operand → NonFormula
  | value v => .value v.kind
  | marker m => .marker m

theorem formulaOf_eq_error {span : Span} {o : Operand} {err : LowerError} (h : formulaOf span (some o) = .error err) :
    err = .notFormula o.nonFormula span ∧ o.shape ≠ .bool := by
  have hshape : o.shape ≠ .bool := by
    intro hbool
    obtain ⟨t, rfl, hsort⟩ := Operand.shape_eq_bool_iff.1 hbool
    rw [Operand.term, formulaOf, if_pos hsort] at h
    cases h
  refine ⟨?_, hshape⟩
  rcases o with v | m
  · cases v with
    | term t =>
      rw [formulaOf] at h
      split at h
      · cases h
      · cases h; rfl
    | point | line | area | lane | object => cases h; rfl
  · cases h; rfl

/-- A source that does not compile cannot be read, or an operator of it refuses its operands, or it is no formula. -/
theorem compile_eq_error {source : String} {err : CompileError}
    (h : (compile registry source).run.run names = (.error err, names')) :
    (∃ fault, parse registry.resolves source = .error fault ∧ err = .parse fault ∧ names' = names) ∨
    (∃ cause, RefusedAt (tokenize source) cause names' ∧ err = .lower cause) ∨
    ∃ (e : Expression) (o : Operand), parse registry.resolves source = .ok e.arena ∧
      Derives registry.resolves (tokenize source) e ∧ ((e.tree 0).lower registry).run.run names = (.ok o, names') ∧
      o.shape ≠ .bool ∧ err = .lower (.notFormula o.nonFormula (e.tree 0).span) := by
  rcases hparse : parse registry.resolves source with fault | a
  · rw [run_compile_error hparse] at h
    cases h
    exact .inl ⟨fault, rfl, rfl, rfl⟩
  obtain ⟨e, he, rfl⟩ := parseTokens_eq_ok_iff.1 hparse
  rw [run_compile_tree hparse] at h
  rcases hlower : ((e.tree 0).lower registry).run.run names with ⟨cause | o, names₁⟩
  · rw [hlower] at h
    cases h
    exact .inr (.inl ⟨cause, he.refusedAt hlower, rfl⟩)
  rw [hlower] at h
  simp only at h
  rcases hform : formulaOf (e.tree 0).span (some o) with cause | t
  · obtain ⟨rfl, hshape⟩ := formulaOf_eq_error hform
    rw [hform] at h
    cases h
    exact .inr (.inr ⟨e, o, rfl, he, hlower, hshape, rfl⟩)
  · rw [hform] at h
    cases h

/-- How a compilation can end, for every source. It gives a formula; or the source cannot be read, and then no name has
been taken; or an operator of the source refuses its operands; or the whole expression is no formula, and the error says
of what kind it is. No literal is malformed and no name unresolved once the source has been read, no text fails to be
cut into tokens, and there is always a root. An operator complains about the number of its operands exactly if it is
not one of those that it asks for. -/
theorem compile_outcomes (registry : Registry) (source : String) (names : NameSupply) :
    (match (compile registry source).run.run names with
      | (.ok formula, names') => ∃ a t u, parse registry.resolves source = .ok a ∧ a.tree? = some t ∧
          (t.lower registry).run.run names = (.ok (.term u), names') ∧ u.sort = .bool ∧ formula = u.simplify ∧
          ∀ Γ, registry.Fits Γ → formula.FitsFormula Γ
      | (.error (.parse err), names') => parse registry.resolves source = .error err ∧ names' = names ∧
          ∀ detail span, err ≠ .malformed (.lexical detail) span
      | (.error (.lower (.typeMismatch op cause span)), names') => ⟨.word op.text, span⟩ ∈ tokenize source ∧
          ∃ args before, (op.apply args).run.run before = (.error cause, names')
      | (.error (.lower (.notFormula found span)), names') => found ≠ .nothing ∧
          ∃ a t o, parse registry.resolves source = .ok a ∧ a.tree? = some t ∧
            (t.lower registry).run.run names = (.ok o, names') ∧ o.shape ≠ .bool ∧ found = o.nonFormula ∧ span = t.span
      | (.error (.lower (.malformedLiteral _ _)), _) => False
      | (.error (.lower (.unresolved _ _)), _) => False) ∧
    ∀ (op : Operator) (args : List Operand) (before : NameSupply) (expected : Arity) (found : Nat),
      ((op.apply args).run.run before).1 = .error (.arity expected found) ↔
        op.arity.accepts args.length = false ∧ expected = op.arity ∧ found = args.length := by
  refine ⟨?_, fun op args before expected found => op.apply_eq_arity_iff args before⟩
  rcases hrun : (compile registry source).run.run names with ⟨err | formula, names'⟩
  · rcases compile_eq_error hrun with ⟨fault, hparse, rfl, rfl⟩ | ⟨cause, hrefused, rfl⟩ |
      ⟨e, o, hparse, -, hlower, hshape, rfl⟩
    · refine ⟨hparse, rfl, ?_⟩
      rintro detail span rfl
      cases Progress.isSyntactic_of_read (parseTokens_eq_error_iff.1 hparse)
    · obtain ⟨op, cause, span, rfl, hmem, happly⟩ := hrefused
      exact ⟨hmem, happly⟩
    · refine ⟨?_, e.arena, e.tree 0, o, hparse, e.tree?_arena, hlower, hshape, rfl, rfl⟩
      cases o <;> exact NonFormula.noConfusion
  · obtain ⟨e, u, hparse, hsort, hlower, rfl⟩ := compile_eq_ok hrun
    refine ⟨e.arena, e.tree 0, u, hparse, e.tree?_arena, hlower, hsort, rfl, fun Γ hreg => ?_⟩
    obtain ⟨e', he', harena⟩ := parseTokens_eq_ok_iff.1 hparse
    have hfits := lower_formula hreg he' names
    rw [harena, lower_arena, hlower, Operand.term] at hfits
    simp only [formulaOf, hsort, if_true] at hfits
    exact (u.simplify_fits hfits.1.1).formula hsort

end RoadPolicy
