/-
The applications of operators in a compilation, in the order in which they are made, and the names
that they take: each successful application of a spatial operator takes the next number, also if
the compilation fails later, and nothing else takes one. The relations among the bindings of a code
policy are numbered in the same way.
-/
import RoadPolicy.Proofs.Policy.TidyCompile

namespace RoadPolicy

/-- An operator applied to operands, and the names taken before. -/
structure Application where
  op : Operator
  args : List Operand
  names : NameSupply

/-- The relation that an application of a spatial operator makes, if it succeeds. -/
def Application.relation? (a : Application) : Option Term :=
  if a.op.isSpatial then ((a.op.apply a.args).run.run a.names).1.toOption else none

/-- The application at a node with the given head, if its children can be lowered. -/
def Head.application? (head : Head) : Except LowerError (List Operand) × NameSupply → Option Application
  | (.ok args, names) =>
    match head with
    | operator op => some ⟨op, args, names⟩
    | _ => none
  | (.error _, _) => none

namespace Tree

mutual

/-- The applications that are made when a tree is lowered: those in the children from left to right, as
long as they can be lowered, and then its own. -/
def applications (registry : Registry) : Tree → NameSupply → List Application
  | node _ head _ children, names =>
    applicationsAll registry children names ++
      (head.application? ((lowerAll registry children).run.run names)).toList

def applicationsAll (registry : Registry) : List Tree → NameSupply → List Application
  | [], _ => []
  | t :: ts, names =>
    t.applications registry names ++
      match (t.lower registry).run.run names with
      | (.ok _, names') => applicationsAll registry ts names'
      | (.error _, _) => []

end

end Tree

/-- The applications that are made when a source is compiled: none if it cannot be read. -/
def applicationsIn (registry : Registry) (source : String) (names : NameSupply) : List Application :=
  match parse registry.resolves source with
  | .ok a => a.tree?.elim [] fun t => t.applications registry names
  | .error _ => []

/-! ## Numbers -/

/-- The terms bind the coordinates of consecutive numbers, from one number to another. -/
def Numbered (n : Nat) (ts : List Term) (m : Nat) : Prop :=
  m = n + ts.length ∧ ts.map Term.boundNames = (List.range' n ts.length).map coordinates

theorem numbered_nil (n : Nat) : Numbered n [] n := ⟨rfl, rfl⟩

theorem numbered_singleton {n : Nat} {t : Term} (h : t.boundNames = coordinates n) : Numbered n [t] (n + 1) :=
  ⟨rfl, congrArg (fun names => [names]) h⟩

theorem Numbered.append {n m l : Nat} {ts us : List Term} (h : Numbered n ts m) (h' : Numbered m us l) :
    Numbered n (ts ++ us) l := by
  obtain ⟨rfl, hts⟩ := h
  obtain ⟨rfl, hus⟩ := h'
  refine ⟨by rw [List.length_append, Nat.add_assoc], ?_⟩
  rw [List.map_append, hts, hus, List.length_append, ← List.map_append, List.range'_append_1]

variable {registry : Registry} {names : NameSupply} {D : Nat → Discipline}

theorem Related.numbered {ts us : List Term} {n m : Nat} (h : Related ts n us m) (hts : ∀ t ∈ ts, t.Tidy .none []) :
    Numbered n us m := by
  induction h with
  | nil n => exact numbered_nil n
  | cons hrel _ ih => exact (numbered_singleton (hrel.boundNames hts)).append ih

/-! ## Operators and trees -/

theorem Application.numbered (a : Application) (hargs : ∀ o ∈ a.args, ∀ t ∈ o.numbers, t.Tidy .none []) :
    Numbered a.names.issued a.relation?.toList ((a.op.apply a.args).run.run a.names).2.issued := by
  rcases hrun : (a.op.apply a.args).run.run a.names with ⟨r, names'⟩
  have hacts := a.op.acts a.args a.names
  rw [hrun] at hacts
  unfold relation?
  rw [hrun]
  cases hacts with
  | refused e =>
    have hnone : (if a.op.isSpatial then (Except.error e : Except ApplyError Term).toOption else none) = none := by
      split <;> rfl
    rw [hnone]
    exact numbered_nil _
  | combined t hop _ =>
    rw [hop]
    exact numbered_nil _
  | related t hop hrel =>
    rw [hop]
    refine numbered_singleton (hrel.boundNames fun t ht => ?_)
    obtain ⟨o, ho, ht⟩ := List.mem_flatMap.1 ht
    exact hargs o ho t ht

/-- An operator that refuses its operands takes no name. -/
theorem Operator.names_of_refused {op : Operator} {args : List Operand} {names' : NameSupply} {e : ApplyError}
    (h : (op.apply args).run.run names = (.error e, names')) : names' = names := by
  have hacts := op.acts args names
  rw [h] at hacts
  cases hacts
  rfl

/-- Only an operator takes names. -/
theorem Head.names_operand (head : Head) (hop : ∀ op, head ≠ .operator op) (span : Span) (args : List Operand) :
    ((head.operand registry span args).run.run names).2 = names := by
  cases head with
  | literal l => rw [operand]; cases l.term? <;> rfl
  | marker m => rfl
  | symbol name => rw [operand]; cases registry.lookup name <;> rfl
  | operator op => exact absurd rfl (hop op)

namespace Tree

theorem numbered_applicationsAll (hD : Disciplines .none D) {ts : List Tree}
    (hts : ∀ t ∈ ts, ∀ names, registry.Tidy .none (D names.issued) → Numbered names.issued
      ((t.applications registry names).filterMap Application.relation?) ((t.lower registry).run.run names).2.issued)
    (hr : registry.Tidy .none (D names.issued)) :
    Numbered names.issued ((applicationsAll registry ts names).filterMap Application.relation?)
      ((lowerAll registry ts).run.run names).2.issued := by
  induction ts generalizing names with
  | nil => exact numbered_nil _
  | cons t ts ih =>
    rw [List.forall_mem_cons] at hts
    have hfirst := hts.1 names hr
    rw [applicationsAll, lowerAll, run_bind, List.filterMap_append]
    rcases hlower : (t.lower registry).run.run names with ⟨e | o, names₁⟩
    · rw [hlower] at hfirst
      exact hfirst.append (numbered_nil _)
    · rw [hlower] at hfirst
      have hle := (t.keepsTidy_lower hD names hr _ _ hlower).1
      have hrest := ih hts.2 (hr.imp fun _ _ => hD.mono hle)
      refine hfirst.append ?_
      simp only [run_bind]
      rcases hall : (lowerAll registry ts).run.run names₁ with ⟨e | os, names₂⟩ <;> rw [hall] at hrest <;> exact hrest

theorem numbered_applications (hD : Disciplines .none D) (t : Tree) : ∀ names, registry.Tidy .none (D names.issued) →
    Numbered names.issued ((t.applications registry names).filterMap Application.relation?)
      ((t.lower registry).run.run names).2.issued := by
  induction t with
  | node id head span children ih =>
    intro names hr
    have hchildren := numbered_applicationsAll hD ih hr
    rw [applications, lower, run_bind, List.filterMap_append]
    rcases hlower : (lowerAll registry children).run.run names with ⟨e | args, names₁⟩
    · rw [hlower] at hchildren
      exact hchildren.append (numbered_nil _)
    · rw [hlower] at hchildren
      refine hchildren.append ?_
      cases head with
      | operator op =>
        have hargs := (keepsTidy_lowerAll hD (fun t _ => t.keepsTidy_lower hD) hr _ _ hlower).2 args rfl
        have hown := Application.numbered ⟨op, args, names₁⟩ fun o ho => (hargs o ho).numbers
        have hnames : (((Head.operator op).operand registry span args).run.run names₁).2 =
            ((op.apply args).run.run names₁).2 := by
          rw [run_operator]
          rcases (op.apply args).run.run names₁ with ⟨cause | t, names₂⟩ <;> rfl
        simp only [hnames]
        exact hown
      | literal l =>
        simp only [(Head.literal l).names_operand (by simp)]
        exact numbered_nil _
      | marker m => exact numbered_nil _
      | symbol name =>
        simp only [(Head.symbol name).names_operand (by simp)]
        exact numbered_nil _

end Tree

theorem numbered_compile (hD : Disciplines .none D) (hr : registry.Tidy .none (D names.issued)) (source : String) :
    Numbered names.issued ((applicationsIn registry source names).filterMap Application.relation?)
      ((compile registry source).run.run names).2.issued := by
  unfold applicationsIn
  rcases hparse : parse registry.resolves source with err | a
  · rw [run_compile_error hparse]
    exact numbered_nil _
  · obtain ⟨e, -, rfl⟩ := parseTokens_eq_ok_iff.1 hparse
    have hnames : ((compile registry source).run.run names).2 = (((e.tree 0).lower registry).run.run names).2 := by
      rw [run_compile_tree hparse]
      rcases ((e.tree 0).lower registry).run.run names with ⟨err | o, names'⟩ <;> rfl
    rw [hnames]
    simp only [e.tree?_arena, Option.elim_some]
    exact (e.tree 0).numbered_applications hD names hr

/-! ## Bindings -/

/-- The term of a value, if it has a quantifier. -/
def Value.quantified? : Value → Option Term
  | term t => if t.quantifierFree then none else some t
  | _ => none

theorem Relation.not_quantifierFree {ts : List Term} {t : Term} (h : Relation ts names t) :
    t.quantifierFree = false := by
  induction h with
  | sets => rfl
  | @timed timing paths _ _ ih =>
    show (timing.quantifierFree && (paths.quantifierFree && true)) = false
    rw [ih, Bool.false_and, Bool.and_false]

theorem Related.not_quantifierFree {ts us : List Term} {n m : Nat} (h : Related ts n us m) :
    ∀ u ∈ us, u.quantifierFree = false := by
  induction h with
  | nil => exact List.forall_mem_nil _
  | cons hrel _ ih => exact List.forall_mem_cons.2 ⟨hrel.not_quantifierFree, ih⟩

namespace CodeBindings

/-- The quantified terms among the bindings. -/
def relations (b : CodeBindings) : List Term := b.symbols.filterMap fun e => e.2.quantified?

@[simp] theorem relations_append (a b : CodeBindings) : (a ++ b).relations = a.relations ++ b.relations :=
  List.filterMap_append ..

@[simp] theorem relations_none : none.relations = [] := rfl

@[simp] theorem relations_param (name : String) (n : Int) : (param name n).relations = [] := rfl

@[simp] theorem relations_fixed (name w : String) (t : Term) : (fixed (.boolConst w) t name).relations = [] := rfl

theorem relations_bindTerm_free {name : String} {t : Term} (h : t.quantifierFree = true) :
    (bindTerm name t).relations = [] := by
  simp [relations, Value.quantified?, h]

theorem relations_bindTerm {name : String} {t : Term} (h : t.quantifierFree = false) :
    (bindTerm name t).relations = [t] := by
  simp [relations, Value.quantified?, h]

theorem relations_eq_nil {b : CodeBindings} (h : b.Tidy .none .none) : b.relations = [] := by
  refine List.filterMap_eq_nil_iff.2 fun e he => ?_
  rcases e with ⟨name, v⟩
  cases v with
  | term t =>
    have ht : t.Tidy .none [] := Value.tidy_term.1 (h.symbols _ he)
    exact if_pos (ht.quantifierFree fun _ => id)
  | point | line | area | lane | object => rfl

variable {sc : Scenario}

theorem relations_crosswalkWith (hsc : sc.Tidy .none) {ped cw : TrafficObject} (hped : ped ∈ sc.objects)
    (hcw : cw ∈ sc.objects) {onCrosswalk onRoad : Term} {crossing : Option Term}
    (hnew : ∀ t ∈ onCrosswalk :: (crossing.toList ++ [onRoad]), t.quantifierFree = false) :
    (crosswalkWith sc.ego ped cw onCrosswalk crossing onRoad).relations =
      onCrosswalk :: (crossing.toList ++ [onRoad]) := by
  have hfree : ∀ {t : Term}, t.Tidy .none [] → ∀ name, (bindTerm name t).relations = [] := fun ht _ =>
    relations_bindTerm_free (ht.quantifierFree fun _ => id)
  have hplaces : ∀ o ∈ sc.objects, o.startS.Tidy .none [] ∧ o.endS.Tidy .none [] ∧ o.pos.s.Tidy .none [] ∧
      o.pos.l.abs.Tidy .none [] := by
    intro o ho
    obtain ⟨⟨hl, hs⟩, -, hsize⟩ := tidy_places (fun _ _ _ => id) hsc ho
    exact ⟨⟨hs, hsize⟩, ⟨hs, hsize⟩, hs, Term.tidy_abs.2 hl⟩
  obtain ⟨hstart, hend, -, -⟩ := hplaces sc.ego List.mem_cons_self
  obtain ⟨-, -, hpos, habs⟩ := hplaces ped hped
  obtain ⟨-, hcwEnd, -, -⟩ := hplaces cw hcw
  rw [List.forall_mem_cons, List.forall_mem_append, List.forall_mem_singleton] at hnew
  have hcrossing : (crossing.elim none (bindTerm "IsEmpty_26")).relations = crossing.toList := by
    cases crossing with
    | none => rfl
    | some t => exact relations_bindTerm (hnew.2.1 t (by simp))
  simp only [crosswalkWith, relations_append, relations_param, relations_fixed, hfree hstart, hfree hend, hfree hpos,
    hfree habs, hfree hcwEnd, hcrossing, relations_bindTerm hnew.1, relations_bindTerm hnew.2.2, List.append_nil,
    List.nil_append, List.cons_append]

theorem numbered_ofScenario (hsc : sc.Tidy .none) (names : NameSupply) :
    Numbered names.issued ((ofScenario sc).run names).1.relations ((ofScenario sc).run names).2.issued := by
  rw [run_ofScenario]
  have halways : (always sc).relations = [] := relations_eq_nil (tidy_always (fun _ _ _ => id) hsc)
  have hlight : (atLight sc).relations = [] := relations_eq_nil (tidy_atLight (fun _ _ _ => id) hsc)
  rcases related_atCrosswalk sc names with h | ⟨ped, hped, cw, hcw, onCrosswalk, crossing, onRoad, names', h, hnew⟩
  · rw [h, relations_append, relations_append, halways, hlight]
    exact numbered_nil _
  · rw [h, relations_append, relations_append, halways, hlight, List.append_nil, List.nil_append,
      relations_crosswalkWith hsc hped hcw hnew.not_quantifierFree]
    exact hnew.numbered (tidy_scenarioNumbers hsc)

end CodeBindings

end RoadPolicy
