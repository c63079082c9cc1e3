/-
Compiling looks at no constant. From a renamed registry, and with other numbers free, a source is read
and lowered in the same way: it fails with the same error, or its formula is the renamed one, and
equally many names are taken. The same holds of the bindings of a scenario.
-/
import RoadPolicy.Proofs.Policy.RenamedRegistry
import RoadPolicy.Proofs.Policy.TidyCompile

namespace RoadPolicy

variable {f : String → String} {n m : Nat}

/-! ## Computations that run alike -/

/-- A renaming takes the points from one number on to the points from another one on. -/
def Shifts (f : String → String) (n m : Nat) : Prop := ∀ i, (coordinates (n + i)).map f = coordinates (m + i)

theorem Shifts.add (h : Shifts f n m) (k : Nat) : Shifts f (n + k) (m + k) := by
  intro i
  rw [Nat.add_assoc, Nat.add_assoc]
  exact h (k + i)

theorem Shifts.binders (h : Shifts f n m) :
    (Point.binders (NameSupply.nextPoint ⟨n⟩)).map (Binder.rename f) = Point.binders (NameSupply.nextPoint ⟨m⟩) := by
  obtain ⟨hl, hs⟩ := List.cons.inj (h 0)
  exact congrArg₂ (fun l s => [Binder.mk l .real, Binder.mk s .real]) hl (List.cons.inj hs).1

theorem Shifts.named (h : Shifts f n m) :
    (Point.named (NameSupply.nextPoint ⟨n⟩)).rename f = Point.named (NameSupply.nextPoint ⟨m⟩) := by
  obtain ⟨hl, hs⟩ := List.cons.inj (h 0)
  exact congrArg₂ (fun l s => Point.mk (.realConst l) (.realConst s)) hl (List.cons.inj hs).1

/-- Wherever a renaming leads from the names of the one computation to those of the other, the two take equally
many names, and the result of the second is that of the first, renamed. -/
def Alike {α : Type} (f : String → String) (g : α → α) (x y : Naming α) : Prop :=
  ∀ n m, Shifts f n m → ∃ k, (x.run ⟨n⟩).2 = ⟨n + k⟩ ∧ y.run ⟨m⟩ = (g (x.run ⟨n⟩).1, ⟨m + k⟩)

section

variable {ε α β : Type} {g : α → α} {h : β → β}

theorem alike_pure (a : α) : Alike f g (pure a) (pure (g a)) := fun _ _ _ => ⟨0, rfl, rfl⟩

theorem Alike.bind {x y : Naming α} {F G : α → Naming β} (hx : Alike f g x y) (hF : ∀ a, Alike f h (F a) (G (g a))) :
    Alike f h (x >>= F) (y >>= G) := by
  intro n m hs
  obtain ⟨k, hk, hy⟩ := hx n m hs
  obtain ⟨l, hl, hG⟩ := hF (x.run ⟨n⟩).1 (n + k) (m + k) (hs.add k)
  have hfirst : (x >>= F).run ⟨n⟩ = (F (x.run ⟨n⟩).1).run ⟨n + k⟩ := congrArg ((F (x.run ⟨n⟩).1).run ·) hk
  have hsecond : (y >>= G).run ⟨m⟩ = (G (y.run ⟨m⟩).1).run (y.run ⟨m⟩).2 := rfl
  refine ⟨k + l, ?_, ?_⟩
  · rw [hfirst, hl, Nat.add_assoc]
  · rw [hsecond, hy, hG, hfirst, Nat.add_assoc]

theorem Alike.map {x y : Naming α} {F : α → β} (hx : Alike f g x y) (hF : ∀ a, h (F a) = F (g a)) :
    Alike f h (F <$> x) (F <$> y) := by
  intro n m hs
  obtain ⟨k, hk, hy⟩ := hx n m hs
  have hrun : (F <$> y).run ⟨m⟩ = (F (y.run ⟨m⟩).1, (y.run ⟨m⟩).2) := rfl
  refine ⟨k, hk, ?_⟩
  rw [hrun, hy]
  exact congrArg (·, _) (hF _).symm

theorem Alike.bindResult {x y : ExceptT ε Naming α} {F G : α → ExceptT ε Naming β}
    (hx : Alike f (Except.map g) x.run y.run) (hF : ∀ a, Alike f (Except.map h) (F a).run (G (g a)).run) :
    Alike f (Except.map h) (x >>= F).run (y >>= G).run := by
  show Alike f (Except.map h) (x.run >>= ExceptT.bindCont F) (y.run >>= ExceptT.bindCont G)
  refine hx.bind fun r => ?_
  cases r with
  | error e => exact alike_pure (Except.error e)
  | ok a => exact hF a

end

/-! ## Relations -/

theorem alike_quantifyPoint {q : Quantifier} {a b : Point → Term} (h : ∀ p, (a p).rename f = b (p.rename f)) :
    Alike f (Term.rename f) (quantifyPoint q a) (quantifyPoint q b) := by
  intro n m hs
  refine ⟨1, rfl, ?_⟩
  rw [run_quantifyPoint, run_quantifyPoint, Term.rename, hs.binders, h, hs.named]

theorem alike_pointIn {p : Point} {a b : Point → Term} (h : ∀ x, (a x).rename f = b (x.rename f)) :
    Alike f (Term.rename f) (pointIn p a) (pointIn (p.rename f) b) := by
  refine alike_quantifyPoint fun x => ?_
  simp only [Term.rename_and, List.map_cons, List.map_nil, Term.rename, h]
  rfl

theorem alike_includedIn {a b c d : Point → Term} (h : ∀ x, (a x).rename f = c (x.rename f))
    (h' : ∀ x, (b x).rename f = d (x.rename f)) : Alike f (Term.rename f) (includedIn a b) (includedIn c d) := by
  refine alike_quantifyPoint fun x => ?_
  rw [Term.rename, h, h']

theorem alike_meets {a b c d : Point → Term} (h : ∀ x, (a x).rename f = c (x.rename f))
    (h' : ∀ x, (b x).rename f = d (x.rename f)) : Alike f (Term.rename f) (meets a b) (meets c d) := by
  refine alike_quantifyPoint fun x => ?_
  rw [Term.rename_and, List.map_cons, List.map_singleton, h, h']

theorem Line.rename_contains (l : Line) (p : Point) : (l.contains p).rename f = (l.rename f).contains (p.rename f) := by
  cases l <;> rfl

theorem Area.rename_contains (a : Area) (p : Point) : (a.contains p).rename f = (a.rename f).contains (p.rename f) := by
  cases a <;> rfl

theorem Encounter.rename_timing (e : Encounter) (ego obstacle : TrafficObject) (v : Point) :
    (e.timing (.between ego obstacle v)).rename f =
      e.timing (.between (ego.rename f) (obstacle.rename f) (v.rename f)) := by
  cases e <;> rfl

theorem Figure.alike_containment (a b : Figure) :
    Option.Rel (Alike f (Term.rename f)) (a.containment b) ((a.rename f).containment (b.rename f)) := by
  cases a with
  | point p =>
    cases b with
    | point q => exact .none
    | line l => exact .some (alike_pointIn l.rename_contains)
    | area a => exact .some (alike_pointIn a.rename_contains)
  | line l =>
    cases b with
    | area a => exact .some (alike_includedIn l.rename_contains a.rename_contains)
    | point | line => exact .none
  | area a =>
    cases b with
    | area b => exact .some (alike_includedIn a.rename_contains b.rename_contains)
    | point | line => exact .none

theorem Figure.alike_crossing (a b : Figure) :
    Option.Rel (Alike f (Term.rename f)) (a.crossing b) ((a.rename f).crossing (b.rename f)) := by
  cases a with
  | point p => exact .none
  | line l =>
    cases b with
    | point q => exact .none
    | line m => exact .some (alike_meets l.rename_contains m.rename_contains)
    | area a => exact .some (alike_meets l.rename_contains a.rename_contains)
  | area a =>
    cases b with
    | point q => exact .none
    | line l => exact .some (alike_meets l.rename_contains a.rename_contains)
    | area b => exact .some (alike_meets a.rename_contains b.rename_contains)

theorem Encounter.alike_formula (e : Encounter) (ego obstacle : TrafficObject) :
    Option.Rel (Alike f (Term.rename f)) (e.formula ego obstacle) (e.formula (ego.rename f) (obstacle.rename f)) := by
  unfold formula
  rcases hm : ego.motion with _ | m
  · simp only [TrafficObject.rename, hm, Option.map_none]
    exact .none
  rcases hn : obstacle.motion with _ | n
  · simp only [TrafficObject.rename, hm, hn, Option.map_none, Option.map_some]
    exact .none
  have hm' : (ego.rename f).motion = some (m.rename f) := congrArg (Option.map (Motion.rename f)) hm
  have hn' : (obstacle.rename f).motion = some (n.rename f) := congrArg (Option.map (Motion.rename f)) hn
  rw [hm', hn']
  refine .some ((alike_meets m.trajectory.rename_contains n.trajectory.rename_contains).bind fun paths => ?_)
  have hresult : (Term.and [e.timing (.between ego obstacle n.v), paths]).rename f =
      .and [e.timing (.between (ego.rename f) (obstacle.rename f) (n.v.rename f)), paths.rename f] := by
    rw [Term.rename_and, List.map_cons, List.map_singleton, rename_timing]
  exact hresult ▸ alike_pure _

/-! ## Operands -/

@[simp] theorem Value.kind_rename (v : Value) : (v.rename f).kind = v.kind := by
  cases v with
  | term t => rw [rename, kind, kind, Term.sort_rename]
  | point | line | area | lane | object => rfl

namespace Operand

def rename (f : String → String) : Operand → Operand
  | value v => value (v.rename f)
  | marker m => marker m

variable (a b : Operand)

@[simp] theorem kind_rename : (a.rename f).kind = a.kind := by
  rcases a with v | m
  · exact congrArg OperandKind.value v.kind_rename
  · rfl

theorem number_rename : (a.rename f).number = a.number.map (Term.rename f) := by
  have hkind := a.kind_rename (f := f)
  rcases a with v | m
  · cases v with
    | term t =>
      simp only [rename, Value.rename, number, Term.sort_rename]
      split
      · exact congrArg (Except.error ∘ ApplyError.expectedNumber) hkind
      · rfl
    | point | line | area | lane | object => rfl
  · rfl

theorem boolean_rename : (a.rename f).boolean = a.boolean.map (Term.rename f) := by
  have hkind := a.kind_rename (f := f)
  rcases a with v | m
  · cases v with
    | term t =>
      simp only [rename, Value.rename, boolean, Term.sort_rename]
      split
      · rfl
      · exact congrArg (Except.error ∘ ApplyError.expectedBoolean) hkind
    | point | line | area | lane | object => rfl
  · rfl

theorem comparable_rename :
    (a.rename f).comparable (b.rename f) = (a.comparable b).map (Prod.map (Term.rename f) (Term.rename f)) := by
  have ha := a.kind_rename (f := f)
  have hb := b.kind_rename (f := f)
  rcases a with (t | _ | _ | _ | _ | _) | m
  case value.term =>
    rcases b with (u | _ | _ | _ | _ | _) | m
    case value.term =>
      simp only [rename, Value.rename, comparable, Term.sort_rename]
      split
      · rfl
      · exact congrArg Except.error (congrArg₂ ApplyError.incomparable ha hb)
    all_goals exact congrArg Except.error (congrArg₂ ApplyError.incomparable ha hb)
  all_goals exact congrArg Except.error (congrArg₂ ApplyError.incomparable ha hb)

theorem figure?_rename : (a.rename f).figure? = a.figure?.map (Figure.rename f) := by
  rcases a with v | m
  · cases v <;> rfl
  · rfl

theorem object?_rename : (a.rename f).object? = a.object?.map (TrafficObject.rename f) := by
  rcases a with v | m
  · cases v <;> rfl
  · rfl

theorem figures_rename :
    (a.rename f).figures (b.rename f) = (a.figures b).map (Prod.map (Figure.rename f) (Figure.rename f)) := by
  rw [figures, figures, figure?_rename, figure?_rename, kind_rename, kind_rename]
  rcases a.figure? with _ | x <;> rcases b.figure? with _ | y <;> rfl

theorem objects_rename :
    (a.rename f).objects (b.rename f) =
      (a.objects b).map (Prod.map (TrafficObject.rename f) (TrafficObject.rename f)) := by
  rw [objects, objects, object?_rename, object?_rename, kind_rename, kind_rename]
  rcases a.object? with _ | x <;> rcases b.object? with _ | y <;> rfl

theorem color_rename : (a.rename f).color = a.color := by
  have ha := a.kind_rename (f := f)
  rcases a with v | (c | d)
  · exact congrArg (Except.error ∘ ApplyError.expectedColor) ha
  · rfl
  · rfl

theorem direction_rename : (a.rename f).direction = a.direction := by
  have ha := a.kind_rename (f := f)
  rcases a with v | (c | d)
  · exact congrArg (Except.error ∘ ApplyError.expectedDirection) ha
  · rfl
  · rfl

theorem colorSignal_rename : (a.rename f).colorSignal = a.colorSignal.map (Term.rename f) := by
  have hnumber := a.number_rename (f := f)
  have hkind := a.kind_rename (f := f)
  rcases a with v | m
  · cases v with
    | object o =>
      simp only [rename, Value.rename, colorSignal, TrafficObject.rename]
      rcases o.color with _ | signal <;> rfl
    | term t =>
      simp only [rename, Value.rename, colorSignal] at hnumber hkind ⊢
      rw [hnumber, hkind]
      rcases (value (.term t)).number with e | u <;> rfl
    | point | line | area | lane => rfl
  · rfl

theorem turnSignal_rename : (a.rename f).turnSignal = a.turnSignal.map (Term.rename f) := by
  have hnumber := a.number_rename (f := f)
  have hkind := a.kind_rename (f := f)
  rcases a with v | m
  · cases v with
    | term t =>
      simp only [rename, Value.rename, turnSignal] at hnumber hkind ⊢
      rw [hnumber, hkind]
      rcases (value (.term t)).number with e | u <;> rfl
    | point | line | area | lane | object => rfl
  · rfl

theorem mapM_boolean_rename : ∀ args : List Operand,
    (args.map (rename f)).mapM boolean = (args.mapM boolean).map (List.map (Term.rename f))
  | [] => rfl
  | a :: args => by
    rw [List.map_cons, List.mapM_cons, List.mapM_cons, boolean_rename, mapM_boolean_rename args]
    rcases a.boolean with e | t
    · rfl
    · rcases args.mapM boolean with e | ts <;> rfl

end Operand

theorem Color.rename_formula (c : Color) (signal : Term) :
    (c.formula signal).rename f = c.formula (signal.rename f) := by
  cases c <;> rfl

theorem Direction.rename_formula (d : Direction) (turn : Term) :
    (d.formula turn).rename f = d.formula (turn.rename f) := by
  cases d <;> rfl

/-! ## Operators -/

namespace Operator

variable {a b : Operand}

theorem alike_plain {x y : Except ApplyError Term} (h : y = x.map (Term.rename f)) :
    Alike f (Except.map (Term.rename f)) (plain x).run (plain y).run := h ▸ alike_pure x

theorem alike_spatial {x y : Option (Naming Term)} {e : ApplyError} (h : Option.Rel (Alike f (Term.rename f)) x y) :
    Alike f (Except.map (Term.rename f)) (spatial x e).run (spatial y e).run := by
  cases h with
  | none => exact alike_pure (Except.error e)
  | some h => exact h.map fun _ => rfl

theorem alike_numbers {g : Term → Term → Term} (hg : ∀ x y, (g x y).rename f = g (x.rename f) (y.rename f)) :
    Alike f (Except.map (Term.rename f)) (plain (numbers a b g)).run
      (plain (numbers (a.rename f) (b.rename f) g)).run := by
  refine alike_plain ?_
  rw [numbers, numbers, Operand.number_rename, Operand.number_rename]
  rcases a.number with e | x
  · rfl
  rcases b.number with e | y
  · rfl
  exact congrArg Except.ok (hg x y).symm

theorem alike_number {g : Term → Term} (hg : ∀ x, (g x).rename f = g (x.rename f)) :
    Alike f (Except.map (Term.rename f)) (plain do return g (← a.number)).run
      (plain do return g (← (a.rename f).number)).run := by
  refine alike_plain ?_
  rw [Operand.number_rename]
  rcases a.number with e | x
  · rfl
  exact congrArg Except.ok (hg x).symm

theorem alike_equation {g : Term → Term → Term} (hg : ∀ x y, (g x y).rename f = g (x.rename f) (y.rename f)) :
    Alike f (Except.map (Term.rename f))
      (plain do
        let (x, y) ← a.comparable b
        return g x y).run
      (plain do
        let (x, y) ← (a.rename f).comparable (b.rename f)
        return g x y).run := by
  refine alike_plain ?_
  rw [Operand.comparable_rename]
  rcases a.comparable b with e | ⟨x, y⟩
  · rfl
  exact congrArg Except.ok (hg x y).symm

theorem alike_junction (j : Junction) (args : List Operand) :
    Alike f (Except.map (Term.rename f)) (plain do return Term.junction j (← args.mapM Operand.boolean)).run
      (plain do return Term.junction j (← (args.map (Operand.rename f)).mapM Operand.boolean)).run := by
  refine alike_plain ?_
  rw [Operand.mapM_boolean_rename]
  rcases args.mapM Operand.boolean with e | ts
  · rfl
  exact congrArg Except.ok (Term.rename_junction f j ts).symm

theorem alike_figures {relation : Figure → Figure → Option (Naming Term)} {err : FigureKind → FigureKind → ApplyError}
    (hrel : ∀ x y, Option.Rel (Alike f (Term.rename f)) (relation x y) (relation (x.rename f) (y.rename f))) :
    Alike f (Except.map (Term.rename f))
      (match a.figures b with
        | .ok (x, y) => spatial (relation x y) (err x.kind y.kind)
        | .error e => throw e : Applying Term).run
      (match (a.rename f).figures (b.rename f) with
        | .ok (x, y) => spatial (relation x y) (err x.kind y.kind)
        | .error e => throw e : Applying Term).run := by
  have hkind : ∀ x : Figure, (x.rename f).kind = x.kind := fun x => by cases x <;> rfl
  rw [Operand.figures_rename]
  rcases a.figures b with e | ⟨x, y⟩
  · exact alike_pure (Except.error e)
  · simp only [Except.map, Prod.map, hkind]
    exact alike_spatial (hrel x y)

theorem alike_encounter (k : Encounter) :
    Alike f (Except.map (Term.rename f)) (encounter k a b).run (encounter k (a.rename f) (b.rename f)).run := by
  rw [encounter, encounter, Operand.objects_rename]
  rcases a.objects b with e | ⟨x, y⟩
  · exact alike_pure (Except.error e)
  · exact alike_spatial (k.alike_formula x y)

theorem alike_signal {μ : Type} {signal : Operand → Except ApplyError Term} {mark : Operand → Except ApplyError μ}
    {formula : Term → μ → Term} (hsignal : (signal (a.rename f)) = (signal a).map (Term.rename f))
    (hmark : mark (b.rename f) = mark b) (hformula : ∀ x c, (formula x c).rename f = formula (x.rename f) c) :
    Alike f (Except.map (Term.rename f))
      (plain do
        let x ← signal a
        let c ← mark b
        return formula x c).run
      (plain do
        let x ← signal (a.rename f)
        let c ← mark (b.rename f)
        return formula x c).run := by
  refine alike_plain ?_
  rw [hsignal, hmark]
  rcases signal a with e | x
  · rfl
  rcases mark b with e | c
  · rfl
  exact congrArg Except.ok (hformula x c).symm

/-- No operator looks at names. -/
theorem alike_apply (op : Operator) (args : List Operand) :
    Alike f (Except.map (Term.rename f)) (op.apply args).run (op.apply (args.map (Operand.rename f))).run := by
  rw [apply, apply, List.length_map]
  split
  case isFalse => exact alike_pure (Except.error _)
  case isTrue hn =>
  have hpair : args.length = 2 → ∃ a b, args = [a, b] := List.length_eq_two.1
  have hsingle : args.length = 1 → ∃ a, args = [a] := List.length_eq_one_iff.1
  cases op with
  | and => exact alike_junction .conj args
  | or => exact alike_junction .disj args
  | not =>
    obtain ⟨a, rfl⟩ := hsingle (length_of_accepts hn)
    refine alike_plain ?_
    rw [Operand.boolean_rename]
    rcases a.boolean with e | x <;> rfl
  | eq | ne =>
    obtain ⟨a, b, rfl⟩ := hpair (length_of_accepts hn)
    exact alike_equation fun _ _ => rfl
  | lt | le | gt | ge | add | mul | div =>
    obtain ⟨a, b, rfl⟩ := hpair (length_of_accepts hn)
    exact alike_numbers fun _ _ => rfl
  | sub =>
    have hlen : args.length = 1 ∨ args.length = 2 := by simpa [arity, Arity.accepts] using hn
    rcases hlen with hlen | hlen
    · obtain ⟨a, rfl⟩ := hsingle hlen
      exact alike_number fun _ => rfl
    · obtain ⟨a, b, rfl⟩ := hpair hlen
      exact alike_numbers fun _ _ => rfl
  | abs =>
    obtain ⟨a, rfl⟩ := hsingle (length_of_accepts hn)
    exact alike_number fun _ => rfl
  | inside =>
    obtain ⟨a, b, rfl⟩ := hpair (length_of_accepts hn)
    exact alike_figures Figure.alike_containment
  | cross =>
    obtain ⟨a, b, rfl⟩ := hpair (length_of_accepts hn)
    exact alike_figures Figure.alike_crossing
  | isColor =>
    obtain ⟨a, b, rfl⟩ := hpair (length_of_accepts hn)
    exact alike_signal a.colorSignal_rename b.color_rename fun x c => c.rename_formula x
  | isDirection =>
    obtain ⟨a, b, rfl⟩ := hpair (length_of_accepts hn)
    exact alike_signal a.turnSignal_rename b.direction_rename fun x d => d.rename_formula x
  | stCross | stAbove | stBelow =>
    obtain ⟨a, b, rfl⟩ := hpair (length_of_accepts hn)
    exact alike_encounter _

end Operator

/-! ## Trees and sources -/

variable {registry : Registry}

theorem Literal.term_rename {l : Literal} {t : Term} (h : l.term? = some t) : t.rename f = t := by
  cases l with
  | int digits =>
    obtain ⟨n, -, rfl⟩ := Option.map_eq_some_iff.1 h
    rfl
  | decimal digits =>
    obtain ⟨q, -, rfl⟩ := Option.map_eq_some_iff.1 h
    rfl
  | bool b =>
    cases h
    rfl

theorem Head.alike_operand (head : Head) (span : Span) (args : List Operand) :
    Alike f (Except.map (Operand.rename f)) (head.operand registry span args).run
      (head.operand (registry.rename f) span (args.map (Operand.rename f))).run := by
  cases head with
  | literal l =>
    rw [operand, operand]
    rcases ht : l.term? with _ | t
    · exact alike_pure (Except.error _)
    · have hterm : (Operand.term t).rename f = .term t := congrArg Operand.term (Literal.term_rename ht)
      have hpure := alike_pure (f := f) (g := Except.map (Operand.rename f))
        (Except.ok (Operand.term t) : Except LowerError Operand)
      rw [Except.map, hterm] at hpure
      exact hpure
  | marker k => exact alike_pure (Except.ok (Operand.marker k))
  | symbol name =>
    rw [operand, operand, Registry.lookup_rename]
    rcases registry.lookup name with _ | v
    · exact alike_pure (Except.error _)
    · exact alike_pure (Except.ok (Operand.value v))
  | operator op =>
    intro n m hs
    obtain ⟨k, hk, happly⟩ := op.alike_apply args n m hs
    rw [Tree.run_operator, Tree.run_operator, happly]
    rcases hrun : (op.apply args).run.run ⟨n⟩ with ⟨e | t, names⟩
    · rw [hrun] at hk
      exact ⟨k, hk, rfl⟩
    · rw [hrun] at hk
      exact ⟨k, hk, rfl⟩

namespace Tree

theorem alike_lowerAll {ts : List Tree}
    (hts : ∀ t ∈ ts, Alike f (Except.map (Operand.rename f)) (t.lower registry).run (t.lower (registry.rename f)).run) :
    Alike f (Except.map (List.map (Operand.rename f))) (lowerAll registry ts).run
      (lowerAll (registry.rename f) ts).run := by
  induction ts with
  | nil => exact alike_pure (Except.ok [])
  | cons t ts ih =>
    rw [List.forall_mem_cons] at hts
    refine hts.1.bindResult fun o => ?_
    refine (ih hts.2).bindResult fun os => ?_
    exact alike_pure (Except.ok (o :: os))

theorem alike_lower (registry : Registry) (t : Tree) :
    Alike f (Except.map (Operand.rename f)) (t.lower registry).run (t.lower (registry.rename f)).run := by
  induction t with
  | node id head span children ih =>
    rw [lower, lower]
    exact (alike_lowerAll ih).bindResult fun args => head.alike_operand span args

end Tree

theorem formulaOf_rename (span : Span) (o : Operand) :
    formulaOf span (some (o.rename f)) = (formulaOf span (some o)).map (Term.rename f) := by
  rcases o with v | k
  · cases v with
    | term t =>
      simp only [Operand.rename, Value.rename, formulaOf, Term.sort_rename, Value.kind]
      split <;> rfl
    | point | line | area | lane | object => rfl
  · rfl

/-- A source compiles alike from a renamed registry. -/
theorem alike_compile (source : String) :
    Alike f (Except.map (Term.rename f)) (compile registry source).run (compile (registry.rename f) source).run := by
  intro n m hs
  rcases hparse : parse registry.resolves source with err | a
  · have hparse' : parse (registry.rename f).resolves source = .error err := by rw [registry.resolves_rename, hparse]
    refine ⟨0, ?_, ?_⟩
    · rw [run_compile_error hparse]
      rfl
    · rw [run_compile_error hparse, run_compile_error hparse']
      rfl
  -- the same names resolve, so the same tree is read
  obtain ⟨e, -, rfl⟩ := parseTokens_eq_ok_iff.1 hparse
  have hparse' : parse (registry.rename f).resolves source = .ok e.arena := by rw [registry.resolves_rename, hparse]
  obtain ⟨k, hk, hlower⟩ := (e.tree 0).alike_lower registry n m hs
  rw [run_compile_tree hparse, run_compile_tree hparse', hlower]
  rcases hrun : ((e.tree 0).lower registry).run.run ⟨n⟩ with ⟨err | o, names⟩
  · rw [hrun] at hk
    exact ⟨k, hk, rfl⟩
  · rw [hrun] at hk
    refine ⟨k, hk, ?_⟩
    simp only [Except.map, formulaOf_rename]
    rcases formulaOf (e.tree 0).span (some o) with err | t
    · rfl
    · simp only [Term.simplify_rename]

/-! ## Bindings -/

namespace CodeBindings

def rename (f : String → String) (b : CodeBindings) : CodeBindings :=
  ⟨b.symbols.map fun e => (e.1, e.2.rename f), b.facts.map (Term.rename f)⟩

section

variable (a b : CodeBindings) (name : String) (t c : Term) (k : Int)

@[simp] theorem rename_append : (a ++ b).rename f = a.rename f ++ b.rename f :=
  congrArg₂ CodeBindings.mk (List.map_append ..) (List.map_append ..)

@[simp] theorem rename_bindTerm : (bindTerm name t).rename f = bindTerm name (t.rename f) := rfl

@[simp] theorem rename_fixed : (fixed c t name).rename f = fixed (c.rename f) (t.rename f) name := rfl

theorem rename_param (h : f name = name) : (param name k).rename f = param name k :=
  congrArg (fun c => fixed (.realConst c) (.int k) name) h

end

section

variable {sc : Scenario} (hf : ∀ name, '!' ∉ name.toList → f name = name) (hsc : ∀ o ∈ sc.objects, o.rename f = o)

include hsc in
theorem rename_always : (always sc).rename f = always sc := by
  unfold always
  rcases hdest : sc.firstOf .destination with _ | dest
  · rfl
  · have hdest := hsc dest (List.mem_cons_of_mem _ (List.mem_of_find?_eq_some hdest))
    have hego := hsc sc.ego List.mem_cons_self
    have hcommutes : (destination sc.ego (some dest)).rename f =
        destination (sc.ego.rename f) (some (dest.rename f)) := rfl
    rw [rename_append, hcommutes, hdest, hego]
    rfl

include hsc in
theorem rename_atLight : (atLight sc).rename f = atLight sc := by
  unfold atLight
  split
  · rename_i light _ hlight
    have hlight := hsc light (List.mem_of_find?_eq_some hlight)
    have hego := hsc sc.ego List.mem_cons_self
    have hcommutes : (trafficLight sc light).rename f =
        trafficLight { sc with ego := sc.ego.rename f } (light.rename f) := by
      unfold trafficLight
      rcases hm : sc.ego.motion with _ | m <;> simp only [TrafficObject.rename, hm] <;> rfl
    rw [hcommutes, hego, hlight]
  · rfl

include hf in
theorem rename_crosswalkWith {ego ped cw : TrafficObject} (hego : ego.rename f = ego) (hped : ped.rename f = ped)
    (hcw : cw.rename f = cw) (onCrosswalk : Term) (crossing : Option Term) (onRoad : Term) :
    (crosswalkWith ego ped cw onCrosswalk crossing onRoad).rename f =
      crosswalkWith ego ped cw (onCrosswalk.rename f) (crossing.map (Term.rename f)) (onRoad.rename f) := by
  have hparam : ∀ name k, '!' ∉ name.toList → (param name k).rename f = param name k := fun name k h =>
    rename_param name k (hf name h)
  have hfound : (Term.boolConst "FindCrosswalks_3").rename f = .boolConst "FindCrosswalks_3" :=
    congrArg Term.boolConst (hf _ (by decide))
  have hends : ∀ {o : TrafficObject}, o.rename f = o → o.endS.rename f = o.endS ∧ o.startS.rename f = o.startS ∧
      o.pos.l.abs.rename f = o.pos.l.abs ∧ o.pos.s.rename f = o.pos.s := by
    intro o ho
    have hcommutes : o.endS.rename f = (o.rename f).endS ∧ o.startS.rename f = (o.rename f).startS ∧
        o.pos.l.abs.rename f = (o.rename f).pos.l.abs ∧ o.pos.s.rename f = (o.rename f).pos.s := ⟨rfl, rfl, rfl, rfl⟩
    rw [ho] at hcommutes
    exact hcommutes
  have hcrossing : (crossing.elim none (bindTerm "IsEmpty_26")).rename f =
      (crossing.map (Term.rename f)).elim none (bindTerm "IsEmpty_26") := by
    cases crossing <;> rfl
  simp (disch := decide) only [crosswalkWith, rename_append, rename_bindTerm, rename_fixed, hparam, hfound, hcrossing,
    hends hego, hends hped, hends hcw, Term.rename]

theorem alike_pathsMeet {ego ped : TrafficObject} (hego : ego.rename f = ego) (hped : ped.rename f = ped) :
    Alike f (Option.map (Term.rename f)) (pathsMeet ego ped) (pathsMeet ego ped) := by
  have hcrossing := Encounter.cross.alike_formula (f := f) ego ped
  rw [hego, hped] at hcrossing
  unfold pathsMeet
  rcases hx : Encounter.cross.formula ego ped with _ | x
  · exact alike_pure Option.none
  · rw [hx] at hcrossing
    cases hcrossing with
    | some h => exact h.map fun _ => rfl

include hf in
theorem alike_crosswalk {ego ped cw : TrafficObject} (hego : ego.rename f = ego) (hped : ped.rename f = ped)
    (hcw : cw.rename f = cw) : Alike f (rename f) (crosswalk ego ped cw) (crosswalk ego ped cw) := by
  have hboundary : ∀ {o : TrafficObject}, o.rename f = o →
      ∀ x, (o.boundary.contains x).rename f = o.boundary.contains (x.rename f) := by
    intro o ho x
    have hcommutes : (o.boundary.contains x).rename f = (o.rename f).boundary.contains (x.rename f) := rfl
    rw [hcommutes, ho]
  have hroad : ∀ x, (Scenario.roadBoundary.contains x).rename f = Scenario.roadBoundary.contains (x.rename f) := by
    intro x
    have hsides : Scenario.roadBoundary.rename f = Scenario.roadBoundary :=
      congrArg₂ (fun l r => Area.corridor (.realConst l) (.realConst r)) (hf _ (by decide)) (hf _ (by decide))
    rw [Area.rename_contains, hsides]
  have hparts : crosswalk ego ped cw = (do
      let onCrosswalk ← meets ped.boundary.contains cw.boundary.contains
      let crossing ← pathsMeet ego ped
      let onRoad ← meets ped.boundary.contains Scenario.roadBoundary.contains
      return crosswalkWith ego ped cw onCrosswalk crossing onRoad) := funext (run_crosswalk ego ped cw)
  rw [hparts]
  refine (alike_meets (hboundary hped) (hboundary hcw)).bind fun onCrosswalk => ?_
  refine (alike_pathsMeet hego hped).bind fun crossing => ?_
  refine (alike_meets (hboundary hped) hroad).bind fun onRoad => ?_
  rw [← rename_crosswalkWith hf hego hped hcw]
  exact alike_pure _

include hf hsc in
/-- A scenario is bound alike if a renaming leaves it as it is. -/
theorem alike_ofScenario : Alike f (rename f) (ofScenario sc) (ofScenario sc) := by
  have hcrosswalk : Alike f (rename f) (atCrosswalk sc) (atCrosswalk sc) := by
    unfold atCrosswalk
    split
    · rename_i ped cw _ hped hcw
      have hped := hsc ped (List.mem_cons_of_mem _ (List.mem_of_find?_eq_some hped))
      have hcw := hsc cw (List.mem_cons_of_mem _ (List.mem_of_find?_eq_some hcw))
      exact alike_crosswalk hf (hsc sc.ego List.mem_cons_self) hped hcw
    · exact alike_pure none
  intro n m hs
  obtain ⟨k, hk, hrun⟩ := hcrosswalk n m hs
  rw [run_ofScenario, run_ofScenario, hrun]
  refine ⟨k, hk, ?_⟩
  rw [rename_append, rename_append, rename_always hsc, rename_atLight hsc]

end

end CodeBindings

end RoadPolicy
