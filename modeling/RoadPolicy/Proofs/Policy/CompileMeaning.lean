/-
The compiler is correct: the formula of a source is true in an interpretation exactly if the direct
reading of the source is. Every node of the expression keeps the meaning of its subtree, by induction
on the tree; the walk over the arena is that recursion, and simplifying changes no meaning.
-/
import Mathlib
import RoadPolicy.Policy.Compile
import RoadPolicy.Proofs.Formula.SimplifySound
import RoadPolicy.Proofs.Language.ParserGrammar
import RoadPolicy.Proofs.Policy.OperatorMeaning
import RoadPolicy.Proofs.Policy.RecursiveLowering

namespace RoadPolicy

variable {Γ : Signature} {registry : Registry} {names names' : NameSupply}

/-! ## Leaves -/

theorem Literal.term_means {l : Literal} {t : Term} (h : l.term? = some t) :
    t.WellSorted Γ ∧ ∀ I, (Operand.term t).reading I = l.reading := by
  cases l with
  | int digits =>
    obtain ⟨n, hn, rfl⟩ := Option.map_eq_some_iff.1 h
    have hnum : (Term.int n).IsNumber Γ := Term.isNumber_int _
    refine ⟨hnum.1, fun I => ?_⟩
    rw [Operand.reading_number hnum.2, Literal.reading, I.amount_int, ← natural?_eq hn]
    rfl
  | decimal digits =>
    obtain ⟨q, hq, rfl⟩ := Option.map_eq_some_iff.1 h
    have hnum : (Term.real q).IsNumber Γ := Term.isNumber_real _
    refine ⟨hnum.1, fun I => ?_⟩
    rw [Operand.reading_number hnum.2, Literal.reading, I.amount_real, ← decimal?_eq hq]
  | bool b =>
    cases h
    refine ⟨trivial, fun I => ?_⟩
    rw [Operand.reading_formula rfl]
    rfl

theorem Registry.Admissible.value_sound (h : registry.Admissible Γ) {name : String} {v : Value}
    (hv : registry.lookup name = some v) : (Operand.value v).Sound Γ :=
  ⟨h.sorted name v hv, fun t ht => h.unmarked name v hv t (Value.mem_terms_of_mem_numbers ht)⟩

/-! ## Trees -/

namespace Tree

/-- The operand of a node stands for the reading of its tree, if those of the children do. -/
theorem operand_means {id : NodeId} {head : Head} {span : Span} {children : List Tree} {args : List Operand}
    {o : Operand} (hreg : registry.Admissible Γ) (hsound : ∀ o ∈ args, o.Sound Γ)
    (hargs : ∀ I, readingAll registry I children = some (args.map (Operand.reading I)))
    (h : (head.operand registry span args).run.run names = (.ok o, names')) :
    o.Sound Γ ∧ ∀ I, (node id head span children).reading registry I = some (o.reading I) := by
  cases head with
  | literal l =>
    rw [Head.operand] at h
    rcases ht : l.term? with _ | t
    · rw [ht] at h; cases h
    rw [ht] at h
    cases h
    obtain ⟨hsorted, hread⟩ := Literal.term_means (Γ := Γ) ht
    exact ⟨Operand.sound_term.2 hsorted, fun I => by rw [reading, hread]⟩
  | marker m =>
    cases h
    exact ⟨trivial, fun I => rfl⟩
  | symbol name =>
    rw [Head.operand] at h
    rcases hv : registry.lookup name with _ | v
    · rw [hv] at h; cases h
    rw [hv] at h
    cases h
    exact ⟨hreg.value_sound hv, fun I => by rw [reading, hv]; rfl⟩
  | operator op =>
    rw [run_operator] at h
    rcases happly : (op.apply args).run.run names with ⟨cause | t, names₁⟩
    · rw [happly] at h; cases h
    rw [happly] at h
    cases h
    have hmeans : Operator.Means Γ op args t := Operator.apply_means hsound happly
    refine ⟨Operand.sound_term.2 hmeans.sorted, fun I => ?_⟩
    rw [reading, hargs, Option.bind_some, hmeans.reading]

/-- A tree that is lowered stands for its reading. -/
def KeepsMeaning (Γ : Signature) (registry : Registry) (t : Tree) : Prop :=
  ∀ names names' o, (t.lower registry).run.run names = (.ok o, names') →
    o.Sound Γ ∧ ∀ I, t.reading registry I = some (o.reading I)

theorem lowerAll_means : ∀ {ts : List Tree} {os : List Operand} {names names' : NameSupply},
    (∀ t ∈ ts, t.KeepsMeaning Γ registry) → (lowerAll registry ts).run.run names = (.ok os, names') →
    (∀ o ∈ os, o.Sound Γ) ∧ ∀ I, readingAll registry I ts = some (os.map (Operand.reading I))
  | [], os, names, names', _, h => by
    cases h
    exact ⟨List.forall_mem_nil _, fun I => rfl⟩
  | t :: ts, os, names, names', hts, h => by
    obtain ⟨o, names₁, ht, h⟩ := run_bind_eq_ok h
    obtain ⟨os, names₂, hrest, h⟩ := run_bind_eq_ok h
    cases h
    obtain ⟨hso, hro⟩ := hts t (List.mem_cons_self ..) names names₁ o ht
    obtain ⟨hsos, hros⟩ := lowerAll_means (fun u hu => hts u (List.mem_cons_of_mem _ hu)) hrest
    refine ⟨List.forall_mem_cons.2 ⟨hso, hsos⟩, fun I => ?_⟩
    rw [readingAll, hro, hros]
    rfl

theorem lower_means (hreg : registry.Admissible Γ) (t : Tree) : t.KeepsMeaning Γ registry := by
  induction t with
  | node id head span children ih =>
    -- the names that the children have taken do not matter: every name taken is fresh for the registry
    intro names names' o h
    rw [lower] at h
    obtain ⟨args, names₁, hargs, h⟩ := run_bind_eq_ok h
    obtain ⟨hsound, hread⟩ := lowerAll_means ih hargs
    exact operand_means hreg hsound hread h

end Tree

/-! ## Sources -/

theorem formulaOf_eq_ok {span : Span} {o : Operand} {t : Term} (h : formulaOf span (some o) = .ok t) :
    o = .term t ∧ t.sort = .bool := by
  rcases o with v | m
  · cases v with
    | term u =>
      rw [formulaOf] at h
      split at h
      · cases h
        exact ⟨rfl, ‹_›⟩
      · cases h
    | point | line | area | lane | object => cases h
  · cases h

theorem run_compile {source : String} {a : Arena} (h : parse registry.resolves source = .ok a) (names : NameSupply) :
    (compile registry source).run.run names =
      match (lower registry a).run.run names with
      | (.ok t, names') => (.ok t.simplify, names')
      | (.error e, names') => (.error (.lower e), names') := by
  rw [compile, h]
  rfl

/-- A source that compiles has been read, lowered to a formula and simplified. -/
theorem compile_eq_ok {source : String} {formula : Term}
    (h : (compile registry source).run.run names = (.ok formula, names')) :
    ∃ (e : Expression) (t : Term), parse registry.resolves source = .ok e.arena ∧ t.sort = .bool ∧
      ((e.tree 0).lower registry).run.run names = (.ok (.term t), names') ∧ formula = t.simplify := by
  rcases hparse : parse registry.resolves source with err | a
  · rw [compile, hparse] at h; cases h
  obtain ⟨e, -, rfl⟩ := parseTokens_eq_ok_iff.1 hparse
  rw [run_compile hparse, lower_arena] at h
  rcases hlower : ((e.tree 0).lower registry).run.run names with ⟨err | o, names₁⟩
  · rw [hlower] at h; cases h
  rw [hlower] at h
  simp only at h
  rcases hform : formulaOf (e.tree 0).span (some o) with err | t
  · rw [hform] at h; cases h
  rw [hform] at h
  cases h
  obtain ⟨rfl, hsort⟩ := formulaOf_eq_ok hform
  exact ⟨e, t, rfl, hsort, hlower, rfl⟩

/-- The formula of a source means what the source says: it is a well-sorted formula, and in every
interpretation it is true exactly if the direct reading of the tree that was read is. -/
theorem compile_means_reading (Γ : Signature) (registry : Registry) (hreg : registry.Admissible Γ) (source : String)
    (names names' : NameSupply) (formula : Term)
    (h : (compile registry source).run.run names = (.ok formula, names')) :
    formula.IsFormula Γ ∧ ∃ a t, parse registry.resolves source = .ok a ∧ a.tree? = some t ∧
      ∀ I, t.reading registry I = some (.truth (I.Satisfies formula)) := by
  obtain ⟨e, t, hparse, hsort, hlower, rfl⟩ := compile_eq_ok h
  obtain ⟨hsound, hread⟩ := Tree.lower_means hreg (e.tree 0) names names' _ hlower
  have hkeep := t.simplify_replaces (Operand.sound_term.1 hsound)
  refine ⟨hkeep.isFormula hsort, e.arena, e.tree 0, hparse, e.tree?_arena, fun I => ?_⟩
  have hsame : I.Satisfies t.simplify = I.Satisfies t := by
    rw [Interpretation.Satisfies, hkeep.meaning, Interpretation.Satisfies]
  rw [hread, Operand.reading_formula hsort, hsame]

theorem compile_means_reading_inclusion :
    let gap : Area := .corridor (.int 0) (.realConst "d")
    let ahead : Area := .corridor (.realConst "left") (.int 2)
    let roads := (Registry.empty.define .code "gap" (.area gap)).define .model "ahead" (.area ahead)
    let registry := roads.define .user "v" (.term (.realConst "v"))
    let source := "or(not(in(gap, ahead)), >(v, 1.50))"
    let x := Point.named "q!3"
    let formula := Term.or [.not (.forAll (Point.binders "q!3") (.implies (gap.contains x) (ahead.contains x))),
      (Term.realConst "v").gt (.real (mkRat 3 2))]
    registry.Admissible .free ∧ (compile registry source).run.run ⟨3⟩ = (.ok formula, ⟨4⟩) ∧
      formula.IsFormula .free ∧ ∃ a t, parse registry.resolves source = .ok a ∧ a.tree? = some t ∧
        ∀ I, t.reading registry I = some (.truth (I.Satisfies formula)) := by
  intro gap ahead roads registry source x formula
  have hgap : (Value.area gap).WellSorted .free := Value.wellSorted_area.2 (by
    simp [gap, Area.terms, Term.realConst, Term.IsNumber, Term.WellSorted, Signature.free, Term.sort])
  have hahead : (Value.area ahead).WellSorted .free := Value.wellSorted_area.2 (by
    simp [ahead, Area.terms, Term.realConst, Term.IsNumber, Term.WellSorted, Signature.free, Term.sort])
  have hv : (Value.term (.realConst "v")).WellSorted .free := Value.wellSorted_term.2 trivial
  have hmarks : ∀ v ∈ [Value.area gap, .area ahead, .term (.realConst "v")], v.Unmarked := by
    simp only [Value.Unmarked, Term.unmarked_iff]
    decide
  have hreg : registry.Admissible .free :=
    ((Registry.admissible_empty.define hgap (hmarks _ (by simp)) _ _).define hahead (hmarks _ (by simp)) _ _).define hv
      (hmarks _ (by simp)) _ _
  have hcompile : (compile registry source).run.run ⟨3⟩ = (.ok formula, ⟨4⟩) := by
    cbv
  exact ⟨hreg, hcompile, compile_means_reading .free registry hreg source ⟨3⟩ ⟨4⟩ formula hcompile⟩

end RoadPolicy
