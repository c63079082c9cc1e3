/-
The names of a scenario are unambiguous. A constant is the name of its object with the ending of a feature,
and no ending ends another one, so objects share constants neither with each other nor with lane and road.
A symbol is the name of its object up to the first dot, so without dots in the ids no symbol is bound twice;
and without blanks and delimiters in them every symbol can be written in a policy, where it stands for its value.
-/
import RoadPolicy.Proofs.Check.TidyRuns
import RoadPolicy.Proofs.Language.TokenLayout
import RoadPolicy.Proofs.Policy.ScenarioComposition

namespace RoadPolicy

/-! ## Constants -/

namespace Term

variable {a b t : Term} {name : String}

/-- Every constant of the term has the name of an object with the ending of a feature. -/
def NamedAfter (name : String) (t : Term) : Prop :=
  t.Everywhere fun s => ∀ n, s.constName? = some n → ∃ e ∈ featureEndings, n = name ++ e

theorem namedAfter_iff : t.NamedAfter name ↔ ∀ n ∈ t.constNames, ∃ e ∈ featureEndings, n = name ++ e := by
  simp only [mem_constNames_iff]
  constructor
  · rintro h n ⟨s, hs, hn⟩
    exact h s hs n hn
  · intro h s hs n hn
    exact h n ⟨s, hs, hn⟩

theorem namedAfter_feature {ending : String} (h : ending ∈ featureEndings) : (realConst (name ++ ending)).NamedAfter name :=
  everywhere_const.2 fun _ hn => ⟨ending, h, (Option.some.inj hn).symm⟩

/-! Any other term is named after an object if its operands are. -/

@[simp] theorem namedAfter_int {n : Int} : (int n).NamedAfter name := everywhere_int.2 fun _ hn => by cases hn

@[simp] theorem namedAfter_real {q : Rat} : (real q).NamedAfter name := everywhere_real.2 fun _ hn => by cases hn

@[simp] theorem namedAfter_arith {op : Arith} : (arith op a b).NamedAfter name ↔ a.NamedAfter name ∧ b.NamedAfter name :=
  everywhere_arith.trans (and_iff_right fun _ hn => by cases hn)

@[simp] theorem namedAfter_eq : (eq a b).NamedAfter name ↔ a.NamedAfter name ∧ b.NamedAfter name :=
  everywhere_eq.trans (and_iff_right fun _ hn => by cases hn)

@[simp] theorem namedAfter_compare {op : Comparison} :
    (compare op a b).NamedAfter name ↔ a.NamedAfter name ∧ b.NamedAfter name :=
  everywhere_compare.trans (and_iff_right fun _ hn => by cases hn)

@[simp] theorem namedAfter_junction {j : Junction} {ts : List Term} :
    (junction j ts).NamedAfter name ↔ ∀ t ∈ ts, t.NamedAfter name :=
  everywhere_junction.trans (and_iff_right fun _ hn => by cases hn)

@[simp] theorem namedAfter_add : (a + b).NamedAfter name ↔ a.NamedAfter name ∧ b.NamedAfter name := namedAfter_arith

@[simp] theorem namedAfter_sub : (a - b).NamedAfter name ↔ a.NamedAfter name ∧ b.NamedAfter name := namedAfter_arith

@[simp] theorem namedAfter_mul : (a * b).NamedAfter name ↔ a.NamedAfter name ∧ b.NamedAfter name := namedAfter_arith

end Term

namespace TrafficObject

variable {o : TrafficObject} {name : String}

theorem numbers_unconstrained_named (kind : ObjectKind) (id : String) :
    ∀ t ∈ (unconstrained kind id).numbers, t.NamedAfter (kind.objectName id) := by
  have hnamed : ∀ e ∈ featureEndings, (Term.realConst (kind.objectName id ++ e)).NamedAfter (kind.objectName id) :=
    fun _ => Term.namedAfter_feature
  simp only [featureEndings, List.forall_mem_cons] at hnamed
  cases kind <;>
    simp [unconstrained, numbers, Point.terms, Point.named, Motion.terms, Motion.ofVelocity, Line.terms, Lane.terms,
      Lane.named, ObjectKind.isMobile, ObjectKind.hasLane, Term.square, String.append_assoc, hnamed]

theorem forall_numbers {P : Term → Prop} : (∀ t ∈ o.numbers, P t) ↔ (P o.pos.l ∧ P o.pos.s) ∧ (P o.size.l ∧ P o.size.s) ∧
    (∀ m, o.motion = some m → ∀ t ∈ m.terms, P t) ∧ (∀ lane, o.lane = some lane → ∀ t ∈ lane.terms, P t) ∧
    (∀ t, o.color = some t → P t) ∧ ∀ t, o.arriveTime = some t → P t := by
  simp only [numbers, Point.terms, List.forall_mem_append, List.forall_mem_cons, Option.mem_toList, and_assoc]
  cases o.motion <;> cases o.lane <;> simp

/-- What is true of an object of its kind is said with its own numbers. -/
theorem kindConstraints_named (h : ∀ t ∈ o.numbers, t.NamedAfter name) : ∀ t ∈ o.kindConstraints, t.NamedAfter name := by
  obtain ⟨⟨hpl, hps⟩, ⟨hsl, hss⟩, hmotion, -⟩ := forall_numbers.1 h
  have hspeed : ∀ max, ∀ t ∈ o.speedLimit max, t.NamedAfter name := by
    intro max
    unfold speedLimit
    rcases hm : o.motion with _ | m
    · exact List.forall_mem_nil _
    · have hv : m.velocity.NamedAfter name := hmotion m hm _ (by simp [Motion.terms])
      simp [Term.le, hv]
  unfold kindConstraints
  cases o.kind <;>
    simp [hasSize, startL, endL, Term.and, Term.ge, Term.le, Term.lt, hpl, hps, hsl, hss] <;> exact hspeed _

/-- All that the object is made of is named after it. -/
def SelfNamed (o : TrafficObject) : Prop := ∀ t ∈ (Value.object o).terms, t.NamedAfter o.name

theorem selfNamed_iff : o.SelfNamed ↔
    (∀ t ∈ o.numbers, t.NamedAfter o.name) ∧ ∀ t ∈ o.constraints, t.NamedAfter o.name := List.forall_mem_append

theorem selfNamed_ofKind (kind : ObjectKind) (id : String) : (ofKind kind id).SelfNamed := by
  have hnumbers := numbers_unconstrained_named kind id
  obtain ⟨-, ⟨hsl, hss⟩, -⟩ := forall_numbers.1 hnumbers
  refine selfNamed_iff.2 ⟨hnumbers, List.forall_mem_cons.2 ⟨?_, kindConstraints_named hnumbers⟩⟩
  simpa [Term.and, Term.gt] using ⟨hsl, hss⟩

theorem selfNamed_ego : Scenario.egoVehicle.SelfNamed := by
  obtain ⟨hnumbers, hconstraints⟩ := selfNamed_iff.1 (selfNamed_ofKind .vehicle "ego")
  obtain ⟨⟨hpl, hps⟩, -, hmotion, -⟩ := forall_numbers.1 hnumbers
  have hv := hmotion Scenario.egoMotion rfl
  simp only [Motion.terms, Point.terms, List.forall_mem_append, List.forall_mem_cons] at hv
  obtain ⟨⟨hvl, hvs, -⟩, -⟩ := hv
  refine selfNamed_iff.2 ⟨hnumbers, List.forall_mem_append.2 ⟨List.forall_mem_append.2 ⟨hconstraints, ?_⟩, ?_⟩⟩
  · exact List.forall_mem_singleton.2 (by simpa [Term.and] using ⟨hpl, hps⟩)
  · have hahead : (Term.and [.eq Scenario.egoMotion.v.l (.int 0), Scenario.egoMotion.v.s.gt (.int 0)]).NamedAfter
        Scenario.egoVehicle.name := by simpa [Term.and, Term.gt] using ⟨hvl, hvs⟩
    exact List.forall_mem_singleton.2 hahead

/-- The names of the constants in all that an object gives a name to. -/
def constants (o : TrafficObject) : List String :=
  (Scenario.objectSymbols o).flatMap fun e => e.2.terms.flatMap Term.constNames

theorem symbols_named (h : o.SelfNamed) : ∀ e ∈ Scenario.featureSymbols o, ∀ t ∈ e.2.terms, t.NamedAfter o.name := by
  obtain ⟨⟨hpl, hps⟩, ⟨hsl, hss⟩, hmotion, hlane, hcolor, htime⟩ := forall_numbers.1 (selfNamed_iff.1 h).1
  unfold Scenario.featureSymbols
  simp only [List.forall_mem_append]
  refine ⟨⟨⟨⟨List.forall_mem_cons.2 ⟨h, ?_⟩, ?_⟩, ?_⟩, ?_⟩, ?_⟩
  · simp [Value.terms, Value.numbers, Value.constraints, Point.terms, Area.terms, boundary, startL, endL, startS, endS, hpl,
      hps, hsl, hss]
  · rcases hm : o.motion with _ | m
    · exact List.forall_mem_nil _
    · have hterms := hmotion m hm
      simp only [Motion.terms, Point.terms, List.forall_mem_append, List.forall_mem_cons] at hterms
      obtain ⟨⟨hvl, hvs, -⟩, hvelocity, htrajectory⟩ := hterms
      simpa [Value.terms, Value.numbers, Value.constraints, Point.terms, hvl, hvs, hvelocity] using htrajectory
  · rcases hl : o.lane with _ | lane
    · exact List.forall_mem_nil _
    · simpa [Value.terms, Value.numbers, Value.constraints, Lane.terms] using hlane lane hl
  · rcases hc : o.color with _ | color
    · exact List.forall_mem_nil _
    · simpa [Value.terms] using hcolor color hc
  · rcases ht : o.arriveTime with _ | time
    · exact List.forall_mem_nil _
    · simpa [Value.terms] using htime time ht

variable {p : TrafficObject}

theorem constants_named (h : o.SelfNamed) : ∀ c ∈ o.constants, ∃ e ∈ featureEndings, c = o.name ++ e := by
  intro c hc
  obtain ⟨e, he, hvalue⟩ := List.mem_flatMap.1 hc
  obtain ⟨f, hf, rfl⟩ := List.mem_map.1 he
  obtain ⟨t, ht, hname⟩ := List.mem_flatMap.1 hvalue
  exact Term.namedAfter_iff.1 (symbols_named h f hf t ht) c hname

/-- No ending ends another one, so the constant shows the name of its object. -/
theorem constants_apart (ho : o.SelfNamed) (hp : p.SelfNamed) (hne : o.name ≠ p.name) :
    o.constants.Disjoint p.constants := by
  intro c hc hc'
  obtain ⟨e, he, rfl⟩ := constants_named ho c hc
  obtain ⟨f, hf, heq⟩ := constants_named hp _ hc'
  have hlist : o.name.toList ++ e.toList = p.name.toList ++ f.toList := by
    rw [← String.toList_append, ← String.toList_append, heq]
  have hends : e.toList <:+ p.name.toList ++ f.toList := hlist ▸ List.suffix_append ..
  have hending : e = f := by
    rcases List.suffix_or_suffix_of_suffix hends (List.suffix_append _ _) with h | h
    · exact ending_free e he f hf h
    · exact (ending_free f hf e he h).symm
  rw [hending] at hlist
  exact hne (String.toList_inj.1 (List.append_cancel_right hlist))

end TrafficObject

namespace Scenario

/-- The names of the constants that lane and road are made of. -/
def widthNames : List String := (laneBoundary.terms ++ roadBoundary.terms ++ widthConstraints).flatMap Term.constNames

theorem widthNames_ends : ∀ c ∈ widthNames, ∀ e ∈ featureEndings, ¬ e.toList <:+ c.toList := by decide +kernel

theorem constants_widthNames {o : TrafficObject} (h : o.SelfNamed) : o.constants.Disjoint widthNames := by
  intro c hc hwidth
  obtain ⟨e, he, rfl⟩ := TrafficObject.constants_named h c hc
  refine widthNames_ends _ hwidth e he ?_
  rw [String.toList_append]
  exact List.suffix_append ..

/-- No constant belongs to two objects, or to an object and to lane or road. -/
structure ConstantsApart (sc : Scenario) : Prop where
  objects : sc.objects.Pairwise fun o p => o.constants.Disjoint p.constants
  widths : ∀ o ∈ sc.objects, o.constants.Disjoint widthNames

variable {settings : ScenarioSettings} {sc : Scenario}

theorem Regular.selfNamed (h : sc.Regular settings) {o : TrafficObject} (ho : o ∈ sc.objects) : o.SelfNamed := by
  rcases h.objects_eq ho with rfl | ⟨kind, id, rfl⟩
  · exact TrafficObject.selfNamed_ego
  · exact TrafficObject.selfNamed_ofKind kind id

theorem Built.leadsTo (h : sc.Built settings) : (Scenario.basic settings).LeadsTo sc := by
  induction h with
  | basic => exact .refl
  | install c _ ih => exact .install c ih
  | add kind id _ ih => exact .add _ ih

theorem Built.names_nodup (h : sc.Built settings) : (TrafficObject.names sc.objects).Nodup :=
  (h.leadsTo.coherent (coherent_basic settings)).names_nodup

theorem Built.constantsApart (h : sc.Built settings) : sc.ConstantsApart := by
  have hnames : sc.objects.Pairwise fun o p => o.name ≠ p.name := List.pairwise_map.1 h.names_nodup
  refine ⟨hnames.imp_of_mem fun ho hp hne => ?_, fun o ho => constants_widthNames (h.regular.selfNamed ho)⟩
  exact TrafficObject.constants_apart (h.regular.selfNamed ho) (h.regular.selfNamed hp) hne

end Scenario

/-! ## Ids -/

namespace ObjectKind

variable {kind : ObjectKind} {id : String} {c : Char}

theorem mem_objectName (h : c ∈ (kind.objectName id).toList) : c ∈ kind.label.toList ∨ c = '_' ∨ c ∈ id.toList := by
  unfold objectName at h
  split at h
  · exact Or.inl h
  · simpa [or_assoc] using h

theorem mem_objectName_of_id (h : c ∈ id.toList) : c ∈ (kind.objectName id).toList := by
  unfold objectName
  split
  next hid =>
    obtain rfl : id = "" := String.isEmpty_iff.1 hid
    cases h
  next => simp [h]

end ObjectKind

namespace Scenario

variable {settings : ScenarioSettings} {sc : Scenario} {o : TrafficObject}

/-- What names are made of besides ids that were given. -/
def fixedParts : List String := "_" :: "ego" :: ObjectKind.all.map ObjectKind.label

/-- What is true of all characters of fixed parts and ids is true of those of the names. -/
theorem Regular.all_name (h : sc.Regular settings) {P : Char → Bool}
    (hfixed : ∀ part ∈ fixedParts, part.toList.all P = true)
    (hids : ∀ kind id, .ofKind kind id ∈ sc.objects → id.toList.all P = true) :
    ∀ o ∈ sc.objects, o.name.toList.all P = true := by
  have hname : ∀ kind id, id.toList.all P = true → (ObjectKind.objectName kind id).toList.all P = true := by
    intro kind id hid
    refine List.all_eq_true.2 fun c hc => ?_
    rcases ObjectKind.mem_objectName hc with hc | rfl | hc
    · have hlabel : kind.label ∈ fixedParts :=
        List.mem_cons_of_mem _ (List.mem_cons_of_mem _ (List.mem_map_of_mem kind.mem_all))
      exact List.all_eq_true.1 (hfixed _ hlabel) c hc
    · exact List.all_eq_true.1 (hfixed "_" List.mem_cons_self) '_' List.mem_cons_self
    · exact List.all_eq_true.1 hid c hc
  intro o ho
  rcases h.objects_eq ho with rfl | ⟨kind, id, rfl⟩
  · exact hname .vehicle "ego" (hfixed "ego" (List.mem_cons_of_mem _ List.mem_cons_self))
  · exact hname kind id (hids kind id ho)

/-! ## Distinct symbols -/

/-- The names that every scenario gives. -/
def commonNames : List String := ["ego_vehicle", "lane_boundary", "road_boundary", "max_stop_deceleration"]

theorem map_fst_symbols (sc : Scenario) : sc.symbols.map Prod.fst = commonNames ++ sc.objects.flatMap symbolNames := by
  rw [symbols, List.map_append, map_fst_flatMap]
  rfl

/-- How the names of a scenario start. -/
def nameStarts : List String := ObjectKind.all.map ObjectKind.label ++ commonNames

theorem Regular.label_start (h : sc.Regular settings) (ho : o ∈ sc.objects) {name : String} (hname : name ∈ symbolNames o) :
    o.kind.label.toList <+: name.toList := by
  rw [symbolNames_eq] at hname
  obtain ⟨e, -, rfl⟩ := List.mem_map.1 hname
  have hrest : ∃ rest, o.name.toList = o.kind.label.toList ++ rest := by
    rcases h.objects_eq ho with rfl | ⟨kind, id, rfl⟩
    · exact ObjectKind.toList_objectName .vehicle "ego"
    · exact kind.toList_objectName id
  obtain ⟨rest, hrest⟩ := hrest
  rw [String.toList_append, hrest, List.append_assoc]
  exact List.prefix_append ..

theorem Built.nodup_symbols (h : sc.Built settings) (hdots : ∀ kind id, .ofKind kind id ∈ sc.objects → '.' ∉ id.toList) :
    (sc.symbols.map Prod.fst).Nodup := by
  have hcommon : commonNames.Nodup := by decide
  have hlabels : ∀ name ∈ commonNames, ∀ kind ∈ ObjectKind.all, ¬ kind.label.toList <+: name.toList := by decide
  have hundotted : ∀ o ∈ sc.objects, '.' ∉ o.name.toList := by
    simp only [← all_ne_dot_iff] at hdots ⊢
    exact h.regular.all_name (by decide) hdots
  rw [map_fst_symbols]
  refine hcommon.append (nodup_flatMap_symbolNames h.names_nodup hundotted) fun name hname hobject => ?_
  obtain ⟨o, ho, hmem⟩ := List.mem_flatMap.1 hobject
  exact hlabels name hname o.kind (ObjectKind.mem_all _) (h.regular.label_start ho hmem)

end Scenario

/-! ## Readable symbols -/

/-- No character of the word ends a token. -/
def Unbroken (word : String) : Prop := word.toList.all (fun c => !isBlank c && (TokenKind.ofDelimiter? c).isNone) = true

theorem unbroken_iff {word : String} :
    Unbroken word ↔ ∀ c ∈ word.toList, isBlank c = false ∧ TokenKind.ofDelimiter? c = none := by
  simp [Unbroken]

theorem visible_eq_self {cs : List Char} (h : ∀ c ∈ cs, isBlank c = false) : visible cs = cs := by
  refine List.filter_eq_self.2 fun c hc => ?_
  rw [h c hc]
  rfl

/-- Such a word is one token. -/
theorem tokenize_word {word : String} (hne : word ≠ "") (h : Unbroken word) :
    tokenize word = [⟨.word word, ⟨0, word.utf8ByteSize⟩⟩] := by
  rw [unbroken_iff] at h
  have hkinds : (tokenize word).map (·.kind) = [.word word] := by
    rw [map_kind_tokenize, visible_eq_self fun c hc => (h c hc).1, ← List.append_nil word.toList]
    exact TokenKind.lex_word hne (fun c hc => (h c hc).2) trivial
  obtain ⟨⟨kind, span⟩, htokens, hkind⟩ := List.map_eq_singleton_iff.1 hkinds
  obtain rfl : kind = .word word := hkind
  have hlaid : Laid 0 word.toList (tokenize word) := .of_visibleFrom 0 word.toList
  rw [htokens] at hlaid ⊢
  generalize hchars : word.toList = cs at hlaid h
  cases hlaid with
  | @token _ gap stretch rest _ _ hgap _ htext hoffset hlength _ =>
    -- nothing is blank, so the token starts at once and its stretch is its text
    have hnogap : gap = [] := by
      refine List.eq_nil_iff_forall_not_mem.2 fun c hc => ?_
      have hblank := (h c (List.mem_append_left _ hc)).1
      rw [hgap c hc] at hblank
      cases hblank
    have hself : visible stretch = stretch :=
      visible_eq_self fun c hc => (h c (List.mem_append_right _ (List.mem_append_left _ hc))).1
    have hstretch : stretch = word.toList := hself.symm.trans htext
    rw [hnogap] at hoffset
    rw [hstretch, byteSize_toList] at hlength
    obtain ⟨offset, length⟩ := span
    obtain rfl : offset = 0 := hoffset
    obtain rfl : length = word.utf8ByteSize := hlength
    rfl

/-- The fixed words of the language, numbers apart. -/
def fixedWords : List String := Operator.all.map Operator.text ++ Marker.all.map Marker.text ++ ["True", "False"]

theorem starts_apart : ∀ start ∈ Scenario.nameStarts, ∀ word ∈ fixedWords, ¬ start.toList <+: word.toList := by decide

theorem starts_with_letter : ∀ start ∈ Scenario.nameStarts, start.toList.head?.map Char.isDigit = some false := by decide

/-- A word that starts like a name of a scenario is no fixed word of the language. -/
theorem plainWord_of_start {start word : String} (h : start ∈ Scenario.nameStarts) (hstart : start.toList <+: word.toList) :
    PlainWord word := by
  have hfixed : ∀ w ∈ fixedWords, w ≠ word := by
    rintro w hw rfl
    exact starts_apart start h w hw hstart
  have hletter : ∀ {cs : List Char}, IsDigits cs → ¬ cs <+: word.toList := by
    intro cs hcs hbegin
    obtain ⟨c, hc, hnodigit⟩ := Option.map_eq_some_iff.1 (starts_with_letter start h)
    rcases cs with _ | ⟨d, rest⟩
    · exact hcs.1 rfl
    · have hfirst := (Scenario.head?_of_start hbegin rfl).symm.trans (Scenario.head?_of_start hstart hc)
      obtain rfl : d = c := Option.some.inj hfirst
      exact absurd (hcs.2 d List.mem_cons_self) (Bool.eq_false_iff.1 hnodigit)
  refine ⟨fun op => ?_, Literal.ofWord?_eq_none_iff.2 fun l hl => ?_, Marker.ofWord?_eq_none_iff.2 fun m => ?_⟩
  · exact hfixed _ (List.mem_append_left _ (List.mem_append_left _ (List.mem_map_of_mem op.mem_all)))
  · rcases l with digits | digits | b
    · exact hletter hl.2 List.prefix_rfl
    · obtain ⟨-, whole, fraction, hword, hwhole, -⟩ := hl
      exact hletter hwhole (hword ▸ List.prefix_append ..)
    · refine hfixed _ (List.mem_append_right _ ?_) (Eq.symm hl)
      cases b <;> decide
  · exact hfixed _ (List.mem_append_left _ (List.mem_append_right _ (List.mem_map_of_mem m.mem_all)))

/-- A name that can be looked up is read as itself. -/
theorem parse_name {r : Registry} {word : String} {v : Value} (hne : word ≠ "") (h : Unbroken word) (hword : PlainWord word)
    (hv : r.lookup word = some v) :
    parse r.resolves word = .ok ⟨#[⟨.symbol word, ⟨0, word.utf8ByteSize⟩, none, []⟩], some 0⟩ := by
  rw [parse, tokenize_word hne h]
  exact parseTokens_eq_ok_iff.2 ⟨_, hword.derives hv _, rfl⟩

/-! ## The populated model -/

namespace Registry

variable {space : Space} {bindings : List (String × Value)} {name : String} {v : Value}

/-- Bindings of different names are all there. -/
theorem lookupIn_defineAll_iff (h : (bindings.map Prod.fst).Nodup) :
    (empty.defineAll space bindings).lookupIn space name = some v ↔ (name, v) ∈ bindings := by
  have hbound : ∀ {w}, (name, w) ∈ bindings → (empty.defineAll space bindings).lookupIn space name = some w := by
    intro w hw
    refine lookupIn_defineAll space _ hw fun b hb hname => ?_
    rw [List.inj_on_of_nodup_map h hb hw hname]
  refine ⟨fun hlookup => ?_, hbound⟩
  by_cases hname : ∃ w, (name, w) ∈ bindings
  · obtain ⟨w, hw⟩ := hname
    rw [hbound hw] at hlookup
    cases hlookup
    exact hw
  · have hnone : (empty.defineAll space bindings).lookupIn space name = empty.lookupIn space name := by
      refine lookupIn_defineAll_of_ne _ fun b hb _ hb' => hname ⟨b.2, ?_⟩
      rw [← hb']
      exact hb
    rw [hnone] at hlookup
    cases space <;> cases hlookup

/-- A name that is bound at all can be looked up, whatever else it is bound to. -/
theorem exists_lookup_defineAll : ∀ {bindings : List (String × Value)} (r : Registry), name ∈ bindings.map Prod.fst →
    ∃ w, (r.defineAll space bindings).lookupIn space name = some w
  | b :: bindings, r, h => by
    by_cases hlater : name ∈ bindings.map Prod.fst
    · exact exists_lookup_defineAll (r.define space b.1 b.2) hlater
    · have hname : b.1 = name := ((List.mem_cons.1 h).resolve_right hlater).symm
      have hne : ∀ c ∈ bindings, space = space → c.1 ≠ name := fun c hc _ =>
        ne_of_mem_of_not_mem (List.mem_map_of_mem hc) hlater
      refine ⟨b.2, (lookupIn_defineAll_of_ne (r.define space b.1 b.2) hne).trans ?_⟩
      rw [lookupIn_define, if_pos ⟨rfl, hname⟩]

theorem exists_lookup_of_lookupIn {r : Registry} (h : r.lookupIn space name = some v) : ∃ w, r.lookup name = some w := by
  have hspace : space ∈ Space.lookupOrder := by cases space <;> decide
  refine Option.isSome_iff_exists.1 (List.findSome?_isSome_iff.2 ⟨space, hspace, ?_⟩)
  rw [h]
  rfl

theorem symbols_assertAll (r : Registry) (space space' : Space) (ts : List Term) :
    (r.assertAll space ts).symbols space' = r.symbols space' := by
  cases space <;> cases space' <;> rfl

theorem entries_defineAll_perm (h : (bindings.map Prod.fst).Nodup) :
    ((empty.defineAll space bindings).symbols space).entries.Perm bindings := by
  refine (List.perm_ext_iff_of_nodup (Dict.nodup_keys _).of_map h.of_map).2 fun b => ?_
  rw [← lookupIn_defineAll_iff h, ← Dict.get?_eq_some_iff]
  rfl

end Registry

namespace Scenario

variable {settings : ScenarioSettings} {sc : Scenario}

theorem symbol_cases {e : String × Value} (he : e ∈ sc.symbols) :
    e.1 ∈ commonNames ∨ ∃ o ∈ sc.objects, e.1 ∈ symbolNames o := by
  have hname : e.1 ∈ sc.symbols.map Prod.fst := List.mem_map_of_mem he
  rwa [map_fst_symbols, List.mem_append, List.mem_flatMap] at hname

theorem Built.symbol_start (h : sc.Built settings) {e : String × Value} (he : e ∈ sc.symbols) :
    ∃ start ∈ nameStarts, start.toList <+: e.1.toList := by
  rcases symbol_cases he with hcommon | ⟨o, ho, hname⟩
  · exact ⟨e.1, List.mem_append_right _ hcommon, List.prefix_rfl⟩
  · exact ⟨o.kind.label, List.mem_append_left _ (List.mem_map_of_mem o.kind.mem_all), h.regular.label_start ho hname⟩

theorem Built.unbroken (h : sc.Built settings) (hids : ∀ kind id, .ofKind kind id ∈ sc.objects → Unbroken id)
    {e : String × Value} (he : e ∈ sc.symbols) : Unbroken e.1 := by
  have hcommon : ∀ name ∈ commonNames, Unbroken name := by
    unfold Unbroken
    decide
  have hendings : ∀ ending ∈ symbolEndings, Unbroken ending := by
    unfold Unbroken
    decide
  rcases symbol_cases he with hname | ⟨o, ho, hname⟩
  · exact hcommon _ hname
  · rw [symbolNames_eq] at hname
    obtain ⟨ending, hending, heq⟩ := List.mem_map.1 hname
    have hobject : Unbroken o.name := h.regular.all_name (by decide) hids o ho
    unfold Unbroken at hobject hendings ⊢
    rw [← heq, String.toList_append, List.all_append, hobject, hendings ending ((endings_sublist o).subset hending)]
    rfl

/-- The registry of a run whose model is populated from the scenario. -/
def modelRegistry (sc : Scenario) : Registry :=
  (Registry.empty.defineAll .model sc.symbols).assertAll .model sc.invariants

theorem lookupIn_modelRegistry (hnodup : (sc.symbols.map Prod.fst).Nodup) :
    ∀ e ∈ sc.symbols, sc.modelRegistry.lookupIn .model e.1 = some e.2 := by
  intro e he
  rw [modelRegistry, Registry.lookupIn_assertAll, Registry.lookupIn_defineAll_iff hnodup]
  exact he

theorem entries_modelRegistry (hnodup : (sc.symbols.map Prod.fst).Nodup) :
    (sc.modelRegistry.symbols .model).entries.Perm sc.symbols := by
  rw [modelRegistry, Registry.symbols_assertAll]
  exact Registry.entries_defineAll_perm hnodup

theorem exists_lookup_modelRegistry {e : String × Value} (he : e ∈ sc.symbols) :
    ∃ v, sc.modelRegistry.lookup e.1 = some v := by
  obtain ⟨v, hv⟩ := @Registry.exists_lookup_defineAll .model e.1 sc.symbols .empty (List.mem_map_of_mem he)
  have hmodel : sc.modelRegistry.lookupIn .model e.1 = some v := by
    rw [modelRegistry, Registry.lookupIn_assertAll, hv]
  exact Registry.exists_lookup_of_lookupIn hmodel

theorem Built.parse_symbol (h : sc.Built settings) (hids : ∀ kind id, .ofKind kind id ∈ sc.objects → Unbroken id) :
    ∀ e ∈ sc.symbols, parse sc.modelRegistry.resolves e.1 =
      .ok ⟨#[⟨.symbol e.1, ⟨0, e.1.utf8ByteSize⟩, none, []⟩], some 0⟩ := by
  intro e he
  obtain ⟨start, hmem, hstart⟩ := h.symbol_start he
  obtain ⟨v, hv⟩ := exists_lookup_modelRegistry he
  have hne : e.1 ≠ "" := by
    intro hempty
    have hnil : start = "" := by simpa [hempty] using hstart
    exact absurd (hnil ▸ hmem) (by decide : "" ∉ nameStarts)
  exact parse_name hne (h.unbroken hids he) (plainWord_of_start hmem hstart) hv

/-- In a scenario of objects made by their kinds no constant has two owners. If no id has a dot, no name is bound
twice in the populated model; if no id has a blank or a delimiter, every name is read as itself. -/
theorem scenario_names_unambiguous (h : sc.Built settings) (mode : ActionMode) :
    sc.ConstantsApart ∧ ∃ v, (Verifier.populate sc.worldModel).run.run (.new mode) = (.ok (), v) ∧
      ((∀ kind id, .ofKind kind id ∈ sc.objects → '.' ∉ id.toList) →
        (sc.symbols.map Prod.fst).Nodup ∧ (v.registry.symbols .model).entries.Perm sc.symbols ∧
          ∀ e ∈ sc.symbols, v.registry.lookupIn .model e.1 = some e.2) ∧
      ((∀ kind id, .ofKind kind id ∈ sc.objects → ∀ c ∈ id.toList, isBlank c = false ∧ c ∉ ['(', ')', ',']) →
        ∀ e ∈ sc.symbols, parse v.registry.resolves e.1 =
          .ok ⟨#[⟨.symbol e.1, ⟨0, e.1.utf8ByteSize⟩, none, []⟩], some 0⟩) := by
  refine ⟨h.constantsApart, ⟨mode, .modelPopulated, sc.modelRegistry, .initial, false, none⟩, rfl, fun hdots => ?_,
    fun hids => h.parse_symbol ?_⟩
  · have hnodup := h.nodup_symbols hdots
    exact ⟨hnodup, entries_modelRegistry hnodup, lookupIn_modelRegistry hnodup⟩
  · simpa only [unbroken_iff, TokenKind.ofDelimiter?_eq_none_iff] using hids

/-- The id of one vehicle goes on like a feature of another one. -/
theorem scenario_names_unambiguous_nested :
    let sc := ((basic {}).install .crosswalk).add (.ofKind .vehicle "0_pos")
    sc.Built {} ∧ (∀ kind id, .ofKind kind id ∈ sc.objects → '.' ∉ id.toList) ∧
      (∀ kind id, .ofKind kind id ∈ sc.objects → ∀ c ∈ id.toList, isBlank c = false ∧ c ∉ ['(', ')', ',']) ∧
      "vehicle_0_pos" ∈ TrafficObject.names sc.objects ∧ "vehicle_0_pos_l" ∈ (TrafficObject.ofKind .vehicle "0").constants ∧
      sc.ConstantsApart ∧ ∃ v, (Verifier.populate sc.worldModel).run.run (.new .flagOff) = (.ok (), v) ∧
        (sc.symbols.map Prod.fst).Nodup ∧ (v.registry.symbols .model).entries.Perm sc.symbols ∧
        ∀ e ∈ sc.symbols, v.registry.lookupIn .model e.1 = some e.2 ∧
          parse v.registry.resolves e.1 = .ok ⟨#[⟨.symbol e.1, ⟨0, e.1.utf8ByteSize⟩, none, []⟩], some 0⟩ := by
  intro sc
  have hbuilt : sc.Built {} := .add .vehicle "0_pos" (.install .crosswalk .basic)
  -- the characters of an id are characters of the name
  have hdots : ∀ kind id, .ofKind kind id ∈ sc.objects → '.' ∉ id.toList := by
    have hnames : ∀ o ∈ sc.objects, '.' ∉ o.name.toList := by decide +kernel
    exact fun kind id ho hc => hnames _ ho (ObjectKind.mem_objectName_of_id hc)
  have hids : ∀ kind id, .ofKind kind id ∈ sc.objects → ∀ c ∈ id.toList, isBlank c = false ∧ c ∉ ['(', ')', ','] := by
    have hnames : ∀ o ∈ sc.objects, Unbroken o.name := by
      unfold Unbroken
      decide +kernel
    simp only [unbroken_iff, TokenKind.ofDelimiter?_eq_none_iff] at hnames
    exact fun kind id ho c hc => hnames _ ho c (ObjectKind.mem_objectName_of_id hc)
  obtain ⟨hconstants, v, hrun, hsymbols, hparse⟩ := scenario_names_unambiguous hbuilt .flagOff
  obtain ⟨hnodup, hentries, hlookup⟩ := hsymbols hdots
  refine ⟨hbuilt, hdots, hids, by decide +kernel, by decide +kernel, hconstants, v, hrun, hnodup, hentries, fun e he => ?_⟩
  exact ⟨hlookup e he, hparse hids e he⟩

/-- With a dot in its id an object can take a name from another one. -/
example : "vehicle_ego.pos" ∈ symbolNames egoVehicle ∧ "vehicle_ego.pos" ∈ symbolNames (.ofKind .vehicle "ego.pos") := by
  decide +kernel

end Scenario

end RoadPolicy
