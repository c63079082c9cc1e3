/-
The typing of the language is sound and complete. An expression that can be read is lowered exactly
if it has a kind, its operand is of that kind, and it is a formula exactly if the kind is that of
truth values. The formula then evaluates safely.
-/
import Mathlib
import RoadPolicy.Proofs.Formula.SafeEval
import RoadPolicy.Proofs.Policy.CompileMeaning
import RoadPolicy.Proofs.Policy.OperatorTyping

namespace RoadPolicy

variable {Γ : Signature} {registry : Registry}

/-- The sorts in every value that can be looked up fit. -/
def Registry.Fits (Γ : Signature) (r : Registry) : Prop := ∀ name v, r.lookup name = some v → v.Fits Γ

theorem Registry.Admissible.fits (h : registry.Admissible Γ) : registry.Fits Γ :=
  fun name v hv => (h.sorted name v hv).fits

/-! ## Literals -/

/-- The text of a literal that has been read can be evaluated, at any length. -/
theorem Literal.Writes.term? {l : Literal} {word : String} (h : l.Writes word) :
    ∃ t, l.term? = some t ∧ t.shape = l.shape ∧ ∀ Γ, t.Fits Γ := by
  cases l with
  | int digits =>
    obtain ⟨rfl, hdigits⟩ := h
    refine ⟨.int (ofDigits digits.toList), ?_, rfl, fun _ => trivial⟩
    rw [Literal.term?, natural?_of_isDigits hdigits]
    rfl
  | decimal digits =>
    obtain ⟨rfl, whole, fraction, htext, hwhole, hfraction⟩ := h
    refine ⟨.real (mkRat (ofDigits (whole ++ fraction)) (tenTo fraction.length)), ?_, rfl, fun _ => trivial⟩
    rw [Literal.term?, decimal?_of_isDigits htext hwhole hfraction]
    rfl
  | bool b => exact ⟨.bool b, rfl, rfl, fun _ => trivial⟩

/-! ## Expressions -/

/-- Lowering gives an operand of the kind of the expression, or fails on one that has no kind. -/
def Expression.LowersToKind (Γ : Signature) (registry : Registry) (e : Expression) : Prop :=
  ∀ base names, match ((e.tree base).lower registry).run.run names with
    | (.ok o, _) => o.Fits Γ ∧ e.HasKind registry o.shape
    | (.error _, _) => ∀ k, ¬ e.HasKind registry k

theorem lowerAll_kinds {es : List Expression} (h : ∀ e ∈ es, e.LowersToKind Γ registry) (base : Nat)
    (names : NameSupply) :
    match (Tree.lowerAll registry (Expression.treeAll base es)).run.run names with
    | (.ok os, _) => (∀ o ∈ os, o.Fits Γ) ∧ List.Forall₂ (Expression.HasKind registry) es (os.map Operand.shape)
    | (.error _, _) => ∀ ks, ¬ List.Forall₂ (Expression.HasKind registry) es ks := by
  induction es generalizing base names with
  | nil => exact ⟨List.forall_mem_nil _, .nil⟩
  | cons e es ih =>
    rw [List.forall_mem_cons] at h
    have he := h.1 base names
    rw [Expression.treeAll, Tree.lowerAll, run_bind]
    rcases hlower : ((e.tree base).lower registry).run.run names with ⟨err | o, names₁⟩
    · rw [hlower] at he
      rintro ks (_ | ⟨hk, -⟩)
      exact he _ hk
    · rw [hlower] at he
      have hes := ih h.2 (base + e.size) names₁
      simp only [run_bind]
      rcases hrest : (Tree.lowerAll registry (Expression.treeAll (base + e.size) es)).run.run names₁ with
        ⟨err | os, names₂⟩
      · rw [hrest] at hes
        rintro ks (_ | ⟨-, hks⟩)
        exact hes _ hks
      · rw [hrest] at hes
        exact ⟨List.forall_mem_cons.2 ⟨he.1, hes.1⟩, .cons he.2 hes.2⟩

theorem run_lower_leaf (head : Head) (span : Span) (base : Nat) (names : NameSupply) :
    (((Expression.node head span []).tree base).lower registry).run.run names =
      (head.operand registry span []).run.run names := by
  rw [Expression.tree, Expression.treeAll, Tree.lower, Tree.lowerAll, pure_bind]

theorem leaf_lowersToKind (hreg : registry.Fits Γ) {resolves : String → Bool} {word : String} {head : Head}
    {span : Span} (h : LeafWord resolves word head) :
    Expression.LowersToKind Γ registry (.node head span []) := by
  intro base names
  rw [run_lower_leaf]
  cases h with
  | @literal l hwrites =>
    obtain ⟨t, ht, hshape, hfits⟩ := hwrites.term?
    have hkind : (Expression.node (.literal l) span []).HasKind registry (Operand.term t).shape := by
      rw [show (Operand.term t).shape = l.shape from hshape]
      exact .literal
    rw [Head.operand, ht]
    exact ⟨Operand.fits_term.2 (hfits Γ), hkind⟩
  | @marker m => exact ⟨trivial, .marker⟩
  | name =>
    rw [Head.operand]
    rcases hv : registry.lookup word with _ | v
    · intro k hk
      cases hk with
      | symbol hv' => rw [hv] at hv'; cases hv'
    · exact ⟨hreg word v hv, .symbol hv⟩

theorem call_lowersToKind {op : Operator} {span : Span} {args : List Expression}
    (hargs : ∀ e ∈ args, e.LowersToKind Γ registry) :
    Expression.LowersToKind Γ registry (.node (.operator op) span args) := by
  intro base names
  have hkinds := lowerAll_kinds hargs (base + 1) names
  rw [Expression.tree, Tree.lower, run_bind]
  rcases hlower : (Tree.lowerAll registry (Expression.treeAll (base + 1) args)).run.run names with
    ⟨err | os, names₁⟩
  · rw [hlower] at hkinds
    intro k hk
    cases hk with
    | call hks _ => exact hkinds _ hks
  · rw [hlower] at hkinds
    obtain ⟨hfits, hkinds⟩ := hkinds
    have hjudged := op.apply_judged hfits names₁
    simp only [Tree.run_operator]
    rcases happly : (op.apply os).run.run names₁ with ⟨cause | t, names₂⟩
    · rw [happly] at hjudged
      intro k hk
      cases hk with
      | call hks htakes =>
        -- the kinds of the arguments are unique, so the table would list those of the operands
        rw [Expression.haveKinds_unique hks hkinds] at htakes
        exact hjudged htakes
    · rw [happly] at hjudged
      obtain ⟨htakes, hfit, hshape⟩ := hjudged
      refine ⟨Operand.fits_term.2 hfit, ?_⟩
      rw [show (Operand.term t).shape = op.yields from hshape]
      exact .call hkinds htakes

mutual

theorem Derives.lowersToKind (hreg : registry.Fits Γ) {resolves : String → Bool} : ∀ {tokens : List Token}
    {e : Expression}, Derives resolves tokens e → e.LowersToKind Γ registry
  | _, _, .leaf _ hleaf => leaf_lowersToKind hreg hleaf
  | _, _, .call hargs => call_lowersToKind (hargs.lowersToKind hreg)

theorem DerivesArgs.lowersToKind (hreg : registry.Fits Γ) {resolves : String → Bool} : ∀ {tokens : List Token}
    {es : List Expression}, DerivesArgs resolves tokens es → ∀ e ∈ es, e.LowersToKind Γ registry
  | _, _, .one he => List.forall_mem_singleton.2 (he.lowersToKind hreg)
  | _, _, .more he hes => List.forall_mem_cons.2 ⟨he.lowersToKind hreg, hes.lowersToKind hreg⟩

end

/-! ## Sources -/

/-- What has been read is lowered to a formula exactly if it is of the kind of truth values. -/
theorem lower_formula (hreg : registry.Fits Γ) {resolves : String → Bool} {tokens : List Token} {e : Expression}
    (he : Derives resolves tokens e) (names : NameSupply) :
    match (lower registry e.arena).run.run names with
    | (.ok t, _) => t.FitsFormula Γ ∧ e.HasKind registry .bool
    | (.error _, _) => ¬ e.HasKind registry .bool := by
  have hkind := he.lowersToKind hreg 0 names
  rw [lower_arena]
  rcases hlower : ((e.tree 0).lower registry).run.run names with ⟨err | o, names'⟩
  · rw [hlower] at hkind
    exact hkind .bool
  rw [hlower] at hkind
  obtain ⟨hfits, hkind⟩ := hkind
  simp only
  rcases hform : formulaOf (e.tree 0).span (some o) with err | t
  · intro hbool
    obtain ⟨t, rfl, hsort⟩ := Operand.shape_eq_bool_iff.1 (hkind.unique hbool)
    rw [Operand.term, formulaOf, if_pos hsort] at hform
    cases hform
  · obtain ⟨rfl, hsort⟩ := formulaOf_eq_ok hform
    rw [Operand.shape_formula hsort] at hkind
    exact ⟨⟨Operand.fits_term.1 hfits, hsort⟩, hkind⟩

end RoadPolicy
