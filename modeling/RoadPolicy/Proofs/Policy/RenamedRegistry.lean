/-
Renaming the constants of values and registries. The names under which a registry lists its values
stay as they are, and so do the names and kinds of objects. Binding, asserting and looking up commute
with renaming.
-/
import RoadPolicy.Proofs.DictEntries
import RoadPolicy.Proofs.Formula.Renaming
import RoadPolicy.Proofs.Road.SortedValues

namespace RoadPolicy

/-! ## Values -/

def Point.rename (f : String → String) (p : Point) : Point := ⟨p.l.rename f, p.s.rename f⟩

def Line.rename (f : String → String) : Line → Line
  | segment start stop => segment (start.rename f) (stop.rename f)
  | ray origin dir => ray (origin.rename f) (dir.rename f)
  | limitedRay origin dir length => limitedRay (origin.rename f) (dir.rename f) (length.rename f)
  | trajectory origin v horizon => trajectory (origin.rename f) (v.rename f) (horizon.rename f)

def Area.rename (f : String → String) : Area → Area
  | centered center half => centered (center.rename f) (half.rename f)
  | bounded start stop => bounded (start.rename f) (stop.rename f)
  | corridor left right => corridor (left.rename f) (right.rename f)

def Figure.rename (f : String → String) : Figure → Figure
  | point p => point (p.rename f)
  | line l => line (l.rename f)
  | area a => area (a.rename f)

def Lane.rename (f : String → String) (l : Lane) : Lane :=
  ⟨l.wayId.rename f, l.roadId.rename f, l.laneId.rename f, l.turn.rename f⟩

def Motion.rename (f : String → String) (m : Motion) : Motion :=
  ⟨m.v.rename f, m.velocity.rename f, m.trajectory.rename f⟩

def TrafficObject.rename (f : String → String) (o : TrafficObject) : TrafficObject :=
  { o with
    pos := o.pos.rename f
    size := o.size.rename f
    motion := o.motion.map (Motion.rename f)
    lane := o.lane.map (Lane.rename f)
    color := o.color.map (Term.rename f)
    arriveTime := o.arriveTime.map (Term.rename f)
    constraints := o.constraints.map (Term.rename f) }

def Value.rename (f : String → String) : Value → Value
  | term t => term (t.rename f)
  | point p => point (p.rename f)
  | line l => line (l.rename f)
  | area a => area (a.rename f)
  | lane l => lane (l.rename f)
  | object o => object (o.rename f)

section

variable {f g : String → String}

/-- What the renamings do alike to some terms, they do alike to what is made of these. -/
def AgreeOn (f g : String → String) (ts : List Term) : Prop := ∀ t ∈ ts, t.rename f = t.rename g

@[simp] theorem agreeOn_nil : AgreeOn f g [] := List.forall_mem_nil _

@[simp] theorem agreeOn_cons {t : Term} {ts : List Term} :
    AgreeOn f g (t :: ts) ↔ t.rename f = t.rename g ∧ AgreeOn f g ts := List.forall_mem_cons

@[simp] theorem agreeOn_append {ts us : List Term} : AgreeOn f g (ts ++ us) ↔ AgreeOn f g ts ∧ AgreeOn f g us :=
  List.forall_mem_append

theorem AgreeOn.map {ts : List Term} (h : AgreeOn f g ts) : ts.map (Term.rename f) = ts.map (Term.rename g) :=
  List.map_congr_left h

theorem Point.rename_congr {p : Point} (h : AgreeOn f g p.terms) : p.rename f = p.rename g := by
  simp only [terms, agreeOn_cons] at h
  rw [rename, rename, h.1, h.2.1]

theorem Line.rename_congr {l : Line} (h : AgreeOn f g l.terms) : l.rename f = l.rename g := by
  cases l with
  | segment | ray =>
    rw [terms, agreeOn_append] at h
    rw [rename, rename, Point.rename_congr h.1, Point.rename_congr h.2]
  | limitedRay | trajectory =>
    simp only [terms, agreeOn_append, agreeOn_cons] at h
    rw [rename, rename, Point.rename_congr h.1.1, Point.rename_congr h.1.2, h.2.1]

theorem Area.rename_congr {a : Area} (h : AgreeOn f g a.terms) : a.rename f = a.rename g := by
  cases a with
  | centered | bounded =>
    rw [terms, agreeOn_append] at h
    rw [rename, rename, Point.rename_congr h.1, Point.rename_congr h.2]
  | corridor =>
    simp only [terms, agreeOn_cons] at h
    rw [rename, rename, h.1, h.2.1]

theorem Lane.rename_congr {l : Lane} (h : AgreeOn f g l.terms) : l.rename f = l.rename g := by
  simp only [terms, agreeOn_cons] at h
  rw [rename, rename, h.1, h.2.1, h.2.2.1, h.2.2.2.1]

theorem Motion.rename_congr {m : Motion} (h : AgreeOn f g m.terms) : m.rename f = m.rename g := by
  simp only [terms, agreeOn_append, agreeOn_cons] at h
  rw [rename, rename, Point.rename_congr h.1, h.2.1, Line.rename_congr h.2.2]

theorem map_rename_congr {α : Type} {r s : α → α} {terms : α → List Term} (h : ∀ {a}, AgreeOn f g (terms a) → r a = s a)
    {x : Option α} (hx : AgreeOn f g (x.elim [] terms)) : x.map r = x.map s := by
  cases x with
  | none => rfl
  | some a => exact congrArg some (h hx)

theorem map_rename_term {t : Option Term} (h : AgreeOn f g t.toList) :
    t.map (Term.rename f) = t.map (Term.rename g) := by
  cases t with
  | none => rfl
  | some t => exact congrArg some (agreeOn_cons.1 h).1

theorem TrafficObject.rename_congr {o : TrafficObject} (h : AgreeOn f g (o.numbers ++ o.constraints)) :
    o.rename f = o.rename g := by
  simp only [numbers, agreeOn_append] at h
  obtain ⟨⟨⟨⟨⟨⟨hpos, hsize⟩, hmotion⟩, hlane⟩, hcolor⟩, htime⟩, hconstraints⟩ := h
  rw [rename, rename, Point.rename_congr hpos, Point.rename_congr hsize, map_rename_congr Motion.rename_congr hmotion,
    map_rename_congr Lane.rename_congr hlane, map_rename_term hcolor, map_rename_term htime, hconstraints.map]

theorem Value.rename_congr {v : Value} (h : AgreeOn f g v.terms) : v.rename f = v.rename g := by
  cases v with
  | term t => exact congrArg term (agreeOn_cons.1 h).1
  | point p => exact congrArg point (Point.rename_congr (agreeOn_append.1 h).1)
  | line l => exact congrArg line (Line.rename_congr (agreeOn_append.1 h).1)
  | area a => exact congrArg area (Area.rename_congr (agreeOn_append.1 h).1)
  | lane l => exact congrArg lane (Lane.rename_congr (agreeOn_append.1 h).1)
  | object o => exact congrArg object (TrafficObject.rename_congr h)

end

/-! ## The identity -/

theorem Point.rename_id (p : Point) : p.rename id = p := by
  rw [rename, Term.rename_id, Term.rename_id]

theorem Line.rename_id (l : Line) : l.rename id = l := by
  cases l <;> simp only [rename, Point.rename_id, Term.rename_id]

theorem Area.rename_id (a : Area) : a.rename id = a := by
  cases a <;> simp only [rename, Point.rename_id, Term.rename_id]

theorem Lane.rename_id (l : Lane) : l.rename id = l := by
  simp only [rename, Term.rename_id]

theorem Motion.rename_id (m : Motion) : m.rename id = m := by
  simp only [rename, Point.rename_id, Line.rename_id, Term.rename_id]

theorem TrafficObject.rename_id (o : TrafficObject) : o.rename id = o := by
  have hmotion : Motion.rename id = id := funext Motion.rename_id
  have hlane : Lane.rename id = id := funext Lane.rename_id
  have hterm : Term.rename id = id := funext Term.rename_id
  simp only [rename, Point.rename_id, hmotion, hlane, hterm, Option.map_id, List.map_id, id_eq]

theorem Value.rename_id (v : Value) : v.rename id = v := by
  cases v <;>
    simp only [rename, Term.rename_id, Point.rename_id, Line.rename_id, Area.rename_id, Lane.rename_id,
      TrafficObject.rename_id]

/-! ## Registries -/

def SpaceTable.rename (f : String → String) (t : SpaceTable) : SpaceTable :=
  ⟨t.symbols.map (Value.rename f), t.formulas.map (Term.rename f)⟩

namespace Registry

def rename (f : String → String) (r : Registry) : Registry :=
  ⟨r.model.rename f, r.code.rename f, r.user.rename f⟩

variable {f g : String → String} (r : Registry)

theorem formulas_rename (space : Space) : (r.rename f).formulas space = (r.formulas space).map (Term.rename f) := by
  cases space <;> rfl

theorem symbols_rename (space : Space) : (r.rename f).symbols space = (r.symbols space).map (Value.rename f) := by
  cases space <;> rfl

theorem lookupIn_rename (space : Space) (name : String) :
    (r.rename f).lookupIn space name = (r.lookupIn space name).map (Value.rename f) := by
  rw [lookupIn, symbols_rename, Dict.get?_map, lookupIn]

theorem lookup_rename (name : String) : (r.rename f).lookup name = (r.lookup name).map (Value.rename f) := by
  simp only [lookup, lookupIn_rename, Space.lookupOrder, List.findSome?_cons, List.findSome?_nil]
  cases r.lookupIn .code name <;> cases r.lookupIn .model name <;> cases r.lookupIn .user name <;> rfl

theorem resolves_rename : (r.rename f).resolves = r.resolves := by
  funext name
  rw [resolves, lookup_rename, Option.isSome_map, resolves]

theorem rename_define (space : Space) (name : String) (v : Value) :
    (r.define space name v).rename f = (r.rename f).define space name (v.rename f) := by
  cases space <;> simp only [define, update, rename, SpaceTable.rename, Dict.map_insert]

theorem rename_defineAll (space : Space) (bindings : List (String × Value)) :
    (r.defineAll space bindings).rename f =
      (r.rename f).defineAll space (bindings.map fun b => (b.1, b.2.rename f)) := by
  induction bindings generalizing r with
  | nil => rfl
  | cons b bindings ih =>
    have hstep := ih (r.define space b.1 b.2)
    rw [rename_define] at hstep
    exact hstep

theorem rename_assertAll (space : Space) (ts : List Term) :
    (r.assertAll space ts).rename f = (r.rename f).assertAll space (ts.map (Term.rename f)) := by
  cases space <;> simp only [assertAll, update, rename, SpaceTable.rename, List.map_append]

/-- Renamings that agree on all formulas and values of a registry agree on the registry. -/
theorem rename_congr (hformulas : ∀ space, AgreeOn f g (r.formulas space))
    (hvalues : ∀ space name v, r.lookupIn space name = some v → AgreeOn f g v.terms) : r.rename f = r.rename g := by
  have htable : ∀ space, (r.table space).rename f = (r.table space).rename g := by
    intro space
    have hsymbols : (r.symbols space).map (Value.rename f) = (r.symbols space).map (Value.rename g) := by
      have hentries : (r.symbols space).entries.map (fun e => (e.1, e.2.rename f)) =
          (r.symbols space).entries.map (fun e => (e.1, e.2.rename g)) := by
        refine List.map_congr_left fun e he => ?_
        rw [Value.rename_congr (hvalues space e.1 e.2 (Dict.get?_eq_some_iff.2 he))]
      simp only [Dict.map, hentries]
    exact congrArg₂ SpaceTable.mk hsymbols (hformulas space).map
  rw [rename, rename]
  exact congr (congrArg₂ Registry.mk (htable .model) (htable .code)) (htable .user)

end Registry

end RoadPolicy
