/-
How scenarios are composed. An object takes the place of the one with its name or comes last, so the names
of the objects stay apart and keep their places. A capability is installed once; of two capabilities either
may come first, and only the order changes in which the scenario lists what it has.
-/
import RoadPolicy.Proofs.DictEntries
import RoadPolicy.Proofs.Policy.EgoPath

namespace RoadPolicy

/-! ## Lists of objects -/

namespace TrafficObject

/-- The names of objects, in their order. -/
def names (os : List TrafficObject) : List String := os.map (·.name)

/-- The first object of a name. -/
def named? (os : List TrafficObject) (name : String) : Option TrafficObject := os.find? fun o => o.name == name

/-- Puts objects into a list, one after the other. -/
def putAll (new os : List TrafficObject) : List TrafficObject := new.foldl (fun os o => o.putIn os) os

variable {o p : TrafficObject} {os new : List TrafficObject} {name : String}

theorem named?_cons (p : TrafficObject) (os : List TrafficObject) (name : String) :
    named? (p :: os) name = if p.name = name then some p else named? os name := by
  rw [named?, List.find?_cons]
  by_cases h : p.name = name
  · rw [if_pos h, beq_iff_eq.2 h]
  · rw [if_neg h, beq_false_of_ne h]
    rfl

theorem named?_putIn (o : TrafficObject) (os : List TrafficObject) (name : String) :
    named? (o.putIn os) name = if o.name = name then some o else named? os name := by
  induction os with
  | nil => exact named?_cons o [] name
  | cons p rest ih =>
    unfold putIn
    by_cases hp : p.name = o.name
    · rw [if_pos hp, named?_cons, named?_cons, hp]
      split <;> rfl
    · rw [if_neg hp, named?_cons, named?_cons, ih]
      by_cases h : o.name = name
      · rw [if_pos h, if_pos h, if_neg fun hpn => hp (hpn.trans h.symm)]
      · rw [if_neg h, if_neg h]

/-- A known name stays where it is, a new one comes last. -/
theorem names_putIn (o : TrafficObject) (os : List TrafficObject) :
    names (o.putIn os) = if o.name ∈ names os then names os else names os ++ [o.name] := by
  induction os with
  | nil => simp [putIn, names]
  | cons p rest ih =>
    unfold names at ih ⊢
    unfold putIn
    by_cases hp : p.name = o.name
    · simp [hp]
    · have hmem : o.name ∈ (p :: rest).map (·.name) ↔ o.name ∈ rest.map (·.name) := by
        simp [Ne.symm hp]
      rw [if_neg hp, List.map_cons, ih]
      by_cases hrest : o.name ∈ rest.map (·.name)
      · rw [if_pos hrest, if_pos (hmem.2 hrest), List.map_cons]
      · rw [if_neg hrest, if_neg fun h => hrest (hmem.1 h), List.map_cons, List.cons_append]

theorem names_prefix_putIn (o : TrafficObject) (os : List TrafficObject) : names os <+: names (o.putIn os) := by
  rw [names_putIn]
  split
  · exact List.prefix_rfl
  · exact List.prefix_append ..

theorem nodup_names_putIn (h : (names os).Nodup) (o : TrafficObject) : (names (o.putIn os)).Nodup := by
  rw [names_putIn]
  split
  · exact h
  · rename_i hnew
    exact h.append (List.nodup_singleton _) (List.disjoint_singleton.2 hnew)

/-! What one object keeps, a list of them keeps. -/

theorem names_prefix_putAll (new os : List TrafficObject) : names os <+: names (putAll new os) :=
  List.foldlRecOn (motive := fun os' => names os <+: names os') new (fun os o => o.putIn os) List.prefix_rfl
    fun _ h o _ => h.trans (names_prefix_putIn o _)

theorem nodup_names_putAll (h : (names os).Nodup) (new : List TrafficObject) : (names (putAll new os)).Nodup :=
  List.foldlRecOn (motive := fun os' => (names os').Nodup) new (fun os o => o.putIn os) h fun _ h o _ =>
    nodup_names_putIn h o

theorem mem_putAll (h : p ∈ putAll new os) : p ∈ new ∨ p ∈ os := by
  induction new generalizing os with
  | nil => exact Or.inr h
  | cons o new ih =>
    rcases ih h with hp | hp
    · exact Or.inl (List.mem_cons_of_mem _ hp)
    · rcases mem_putIn hp with rfl | hp
      · exact Or.inl List.mem_cons_self
      · exact Or.inr hp

theorem named?_putAll_of_ne (h : ∀ o ∈ new, o.name ≠ name) : named? (putAll new os) name = named? os name := by
  induction new generalizing os with
  | nil => rfl
  | cons o new ih =>
    obtain ⟨ho, hnew⟩ := List.forall_mem_cons.1 h
    refine (ih hnew).trans ?_
    rw [named?_putIn, if_neg ho]

/-- No two of the objects have the same name. -/
def OneEach (os : List TrafficObject) : Prop := ∀ o ∈ os, ∀ p ∈ os, o.name = p.name → o = p

theorem named?_putAll_of_mem (hone : OneEach new) (ho : o ∈ new) : named? (putAll new os) o.name = some o := by
  induction new generalizing os with
  | nil => exact absurd ho List.not_mem_nil
  | cons p new ih =>
    by_cases hlater : o ∈ new
    · exact ih (fun a ha b hb => hone a (List.mem_cons_of_mem _ ha) b (List.mem_cons_of_mem _ hb)) hlater
    · -- the first object is the last one of its name
      obtain rfl : o = p := (List.mem_cons.1 ho).resolve_right hlater
      have hne : ∀ q ∈ new, q.name ≠ o.name := by
        intro q hq hname
        obtain rfl := hone q (List.mem_cons_of_mem _ hq) o ho hname
        exact hlater hq
      refine (named?_putAll_of_ne hne).trans ?_
      rw [named?_putIn, if_pos rfl]

/-- In which order the objects are put in does not matter for what a name stands for. -/
theorem named?_putAll_congr {new' : List TrafficObject} (hone : OneEach new) (hsame : ∀ o, o ∈ new ↔ o ∈ new')
    (name : String) : named? (putAll new os) name = named? (putAll new' os) name := by
  by_cases h : ∃ o ∈ new, o.name = name
  · obtain ⟨o, ho, rfl⟩ := h
    have hone' : OneEach new' := fun a ha b hb => hone a ((hsame a).2 ha) b ((hsame b).2 hb)
    rw [named?_putAll_of_mem hone ho, named?_putAll_of_mem hone' ((hsame o).1 ho)]
  · have hne : ∀ o ∈ new, o.name ≠ name := fun o ho hname => h ⟨o, ho, hname⟩
    rw [named?_putAll_of_ne hne, named?_putAll_of_ne fun o ho => hne o ((hsame o).2 ho)]

/-! A list without repeated names is known, up to its order, by what the names stand for. -/

section

variable {os' part : List TrafficObject}

theorem named?_eq_some_iff (h : (names os).Nodup) : named? os name = some o ↔ o ∈ os ∧ o.name = name := by
  constructor
  · intro hfind
    exact ⟨List.mem_of_find?_eq_some hfind, by simpa using List.find?_some hfind⟩
  · rintro ⟨ho, rfl⟩
    rcases hfind : named? os o.name with _ | p
    · have := List.find?_eq_none.1 hfind o ho
      simp at this
    · have hp : p ∈ os := List.mem_of_find?_eq_some hfind
      have hname : p.name = o.name := by simpa using List.find?_some hfind
      rw [List.inj_on_of_nodup_map h hp ho hname]

theorem perm_of_named?_eq (h : (names os).Nodup) (h' : (names os').Nodup)
    (hsame : ∀ name, named? os name = named? os' name) : os.Perm os' := by
  refine (List.perm_ext_iff_of_nodup h.of_map h'.of_map).2 fun o => ?_
  have hmem : named? os o.name = some o ↔ named? os' o.name = some o := by rw [hsame]
  simpa [named?_eq_some_iff h, named?_eq_some_iff h'] using hmem

theorem filterMap_named? (h : (names os).Nodup) (hpart : part ⊆ os) : (names part).filterMap (named? os) = part := by
  have hall : ∀ o ∈ part, named? os o.name = some o := fun o ho => (named?_eq_some_iff h).2 ⟨hpart ho, rfl⟩
  rw [names, List.filterMap_map]
  exact (List.filterMap_congr hall).trans List.filterMap_some

/-- Lists whose names start alike start with the same objects. -/
theorem take_eq_of_named?_eq (h : (names os).Nodup) (h' : (names os').Nodup)
    (hsame : ∀ name, named? os name = named? os' name) {n : Nat} (htake : (names os).take n = (names os').take n) :
    os.take n = os'.take n := by
  have hpart : names (os.take n) = names (os'.take n) := by simpa [names] using htake
  calc os.take n = (names (os.take n)).filterMap (named? os) := (filterMap_named? h (List.take_subset ..)).symm
    _ = (names (os'.take n)).filterMap (named? os') := by rw [hpart, funext hsame]
    _ = os'.take n := filterMap_named? h' (List.take_subset ..)

theorem take_names_putAll (new os : List TrafficObject) : (names (putAll new os)).take os.length = names os := by
  have hlength : os.length = (names os).length := (List.length_map _).symm
  rw [hlength]
  exact (List.prefix_iff_eq_take.1 (names_prefix_putAll new os)).symm

theorem drop_putAll_subset (h : (names os).Nodup) : (putAll new os).drop os.length ⊆ new := by
  intro p hp
  refine (mem_putAll (List.mem_of_mem_drop hp)).resolve_right fun hold => ?_
  -- what stands behind the old names has none of them
  have hname : p.name ∈ (names (putAll new os)).take os.length := by
    rw [take_names_putAll]
    exact List.mem_map_of_mem hold
  have hname' : p.name ∈ (names (putAll new os)).drop os.length := by
    rw [names, ← List.map_drop]
    exact List.mem_map_of_mem hp
  exact List.disjoint_take_drop (nodup_names_putAll h new) le_rfl hname hname'

/-- Put in in another order, the objects take the same old places, and only those that come last change theirs. -/
theorem putAll_reordered {new' : List TrafficObject} (h : (names os).Nodup) (hone : OneEach new)
    (hsame : ∀ o, o ∈ new ↔ o ∈ new') : ∃ kept last last', putAll new os = kept ++ last ∧
      putAll new' os = kept ++ last' ∧ last.Perm last' ∧ last ⊆ new := by
  have hnamed : ∀ name, named? (putAll new os) name = named? (putAll new' os) name := named?_putAll_congr hone hsame
  have hnew := nodup_names_putAll h new
  have hnew' := nodup_names_putAll h new'
  have hkept : (putAll new os).take os.length = (putAll new' os).take os.length :=
    take_eq_of_named?_eq hnew hnew' hnamed ((take_names_putAll new os).trans (take_names_putAll new' os).symm)
  have hperm := perm_of_named?_eq hnew hnew' hnamed
  refine ⟨(putAll new os).take os.length, (putAll new os).drop os.length, (putAll new' os).drop os.length,
    (List.take_append_drop ..).symm, ?_, ?_, drop_putAll_subset h⟩
  · rw [hkept, List.take_append_drop]
  · rw [← List.take_append_drop os.length (putAll new os), ← List.take_append_drop os.length (putAll new' os), hkept]
      at hperm
    exact (List.perm_append_left_iff _).1 hperm

end

end TrafficObject

/-! ## Names of symbols -/

namespace Scenario

/-- What the names that an object gives add to its own name. -/
def symbolEndings : List String :=
  ["", ".pos", ".pos.l", ".pos.s", ".size", ".size.l", ".size.s", ".boundary", ".start_l", ".end_l", ".start_s", ".end_s",
    ".v", ".v.l", ".v.s", ".velocity", ".trajectory", ".lane", ".lane.way_id", ".lane.road_id", ".lane.lane_id",
    ".lane.turn", ".color", ".arrive_time"]

theorem endings_sublist (o : TrafficObject) : ((featureSymbols o).map Prod.fst).Sublist symbolEndings := by
  have hsplit : symbolEndings = symbolEndings.take 12 ++ (symbolEndings.drop 12).take 5 ++ (symbolEndings.drop 17).take 5 ++
      [".color"] ++ [".arrive_time"] := rfl
  rw [featureSymbols, hsplit]
  simp only [List.map_append]
  refine .append (.append (.append (.append (.refl _) ?_) ?_) ?_) ?_
  · cases o.motion
    · exact List.nil_sublist _
    · exact .refl _
  · cases o.lane
    · exact List.nil_sublist _
    · exact .refl _
  · cases o.color
    · exact List.nil_sublist _
    · exact .refl _
  · cases o.arriveTime
    · exact List.nil_sublist _
    · exact .refl _

/-- The names that an object gives. -/
def symbolNames (o : TrafficObject) : List String := (objectSymbols o).map Prod.fst

theorem symbolNames_eq (o : TrafficObject) : symbolNames o = ((featureSymbols o).map Prod.fst).map (o.name ++ ·) := by
  simp [symbolNames, objectSymbols]

theorem nodup_symbolNames (o : TrafficObject) : (symbolNames o).Nodup := by
  have hendings : symbolEndings.Nodup := by decide
  have hinj : Function.Injective (o.name ++ ·) := by
    intro e f hef
    have hlist := congrArg String.toList hef
    rw [String.toList_append, String.toList_append] at hlist
    exact String.toList_inj.1 (List.append_cancel_left hlist)
  rw [symbolNames_eq]
  exact (hendings.sublist (endings_sublist o)).map hinj

/-- The part of a name before its first dot. -/
def stem (name : String) : List Char := name.toList.takeWhile (· != '.')

theorem all_ne_dot_iff {cs : List Char} : cs.all (· != '.') = true ↔ '.' ∉ cs := by
  rw [List.all_eq_true]
  constructor
  · intro h hdot
    exact absurd (h '.' hdot) (by decide)
  · intro h c hc
    exact bne_iff_ne.2 (ne_of_mem_of_not_mem hc h)

theorem stem_endings : ∀ e ∈ symbolEndings, stem e = [] := by decide

variable {o p : TrafficObject}

theorem stem_symbolName (ho : '.' ∉ o.name.toList) {name : String} (h : name ∈ symbolNames o) :
    stem name = o.name.toList := by
  rw [symbolNames_eq] at h
  obtain ⟨e, he, rfl⟩ := List.mem_map.1 h
  have hplain : ∀ c ∈ o.name.toList, (c != '.') = true := List.all_eq_true.1 (all_ne_dot_iff.2 ho)
  have hend : e.toList.takeWhile (· != '.') = [] := stem_endings e ((endings_sublist o).subset he)
  rw [stem, String.toList_append, List.takeWhile_append_of_pos hplain, hend, List.append_nil]

/-- Without dots in their own names, the objects give no name twice. -/
theorem nodup_flatMap_symbolNames {os : List TrafficObject} (h : (TrafficObject.names os).Nodup)
    (hdots : ∀ o ∈ os, '.' ∉ o.name.toList) : (os.flatMap symbolNames).Nodup := by
  refine List.nodup_flatMap.2 ⟨fun o _ => nodup_symbolNames o, ?_⟩
  have hnames : os.Pairwise fun o p => o.name ≠ p.name := List.pairwise_map.1 h
  refine hnames.imp_of_mem fun ho hp hne name hname hname' => hne ?_
  have hstem := (stem_symbolName (hdots _ ho) hname).symm.trans (stem_symbolName (hdots _ hp) hname')
  exact String.toList_inj.1 hstem

theorem map_fst_flatMap (os : List TrafficObject) : (os.flatMap objectSymbols).map Prod.fst = os.flatMap symbolNames :=
  List.map_flatMap ..

/-! ## Companions -/

/-- The companions, each by its kind and its id. -/
def companionIds : List (ObjectKind × String) :=
  [(.destination, ""), (.crosswalk, "0"), (.pedestrian, "0"), (.vehicle, "0"), (.trafficLight, "self"),
    (.trafficLight, "main"), (.stopSign, "0"), (.intersection, ""), (.vehicle, "0")]

theorem companions_eq : companions = companionIds.map fun i => .ofKind i.1 i.2 := rfl

theorem oneEach_companions : TrafficObject.OneEach companions := by
  have hids : ∀ i ∈ companionIds, ∀ j ∈ companionIds, i.1.objectName i.2 = j.1.objectName j.2 → i = j := by decide
  rw [companions_eq]
  intro o ho p hp hname
  obtain ⟨i, hi, rfl⟩ := List.mem_map.1 ho
  obtain ⟨j, hj, rfl⟩ := List.mem_map.1 hp
  rw [hids i hi j hj hname]

theorem undotted_companions : ∀ o ∈ companions, '.' ∉ o.name.toList := by decide

/-! ## Installing and adding -/

variable {sc sc' : Scenario} {c d : Capability}

theorem objects_add (sc : Scenario) (o : TrafficObject) : (sc.add o).objects = o.putIn sc.objects := by
  show (sc.add o).objects = if sc.ego.name = o.name then o :: sc.others else sc.ego :: o.putIn sc.others
  unfold add
  split <;> rfl

theorem capabilities_add (sc : Scenario) (o : TrafficObject) : (sc.add o).capabilities = sc.capabilities := by
  unfold add
  split <;> rfl

theorem settings_add (sc : Scenario) (o : TrafficObject) : (sc.add o).settings = sc.settings := by
  unfold add
  split <;> rfl

theorem addAll_parts (os : List TrafficObject) (sc : Scenario) :
    (os.foldl add sc).objects = TrafficObject.putAll os sc.objects ∧
      (os.foldl add sc).capabilities = sc.capabilities ∧ (os.foldl add sc).settings = sc.settings := by
  induction os generalizing sc with
  | nil => exact ⟨rfl, rfl, rfl⟩
  | cons o os ih =>
    obtain ⟨hobjects, hcaps, hsettings⟩ := ih (sc.add o)
    refine ⟨?_, hcaps.trans (sc.capabilities_add o), hsettings.trans (sc.settings_add o)⟩
    rw [List.foldl_cons, hobjects, objects_add]
    rfl

/-- A capability that is there already changes nothing. -/
theorem install_of_has (h : sc.has c = true) : sc.install c = sc := if_pos h

theorem install_parts (h : sc.has c = false) :
    (sc.install c).objects = TrafficObject.putAll c.objects sc.objects ∧
      (sc.install c).capabilities = sc.capabilities ++ [c] ∧ (sc.install c).settings = sc.settings := by
  obtain ⟨hobjects, hcaps, hsettings⟩ := addAll_parts c.objects sc
  rw [install, if_neg (Bool.eq_false_iff.1 h)]
  refine ⟨hobjects, ?_, hsettings⟩
  show (c.objects.foldl add sc).capabilities ++ [c] = _
  rw [hcaps]

theorem has_iff : sc.has c = true ↔ c ∈ sc.capabilities := List.contains_iff_mem

theorem mem_capabilities_install (sc : Scenario) (c d : Capability) :
    d ∈ (sc.install c).capabilities ↔ d ∈ sc.capabilities ∨ d = c := by
  by_cases h : sc.has c = true
  · rw [install_of_has h]
    exact ⟨Or.inl, fun hd => hd.elim id fun hdc => hdc ▸ has_iff.1 h⟩
  · rw [(install_parts (Bool.eq_false_iff.2 h)).2.1, List.mem_append, List.mem_singleton]

/-- Installing capabilities and adding objects, whatever they are, leads from one scenario to another. -/
inductive LeadsTo (sc : Scenario) : Scenario → Prop
  | refl : LeadsTo sc sc
  | install {sc' : Scenario} (c : Capability) : LeadsTo sc sc' → LeadsTo sc (sc'.install c)
  | add {sc' : Scenario} (o : TrafficObject) : LeadsTo sc sc' → LeadsTo sc (sc'.add o)

theorem names_prefix_install (sc : Scenario) (c : Capability) :
    TrafficObject.names sc.objects <+: TrafficObject.names (sc.install c).objects := by
  by_cases h : sc.has c = true
  · rw [install_of_has h]
  · rw [(install_parts (Bool.eq_false_iff.2 h)).1]
    exact TrafficObject.names_prefix_putAll ..

/-- No name is ever moved or taken away. -/
theorem LeadsTo.names_kept (h : sc.LeadsTo sc') :
    TrafficObject.names sc.objects <+: TrafficObject.names sc'.objects := by
  induction h with
  | refl => exact List.prefix_rfl
  | install c _ ih => exact ih.trans (names_prefix_install _ c)
  | add o _ ih =>
    rw [objects_add]
    exact ih.trans (TrafficObject.names_prefix_putIn o _)

/-- The names of the objects are apart, the ego vehicle comes first, and no capability is there twice. -/
structure Coherent (sc : Scenario) : Prop where
  names_nodup : (TrafficObject.names sc.objects).Nodup
  ego_first : (TrafficObject.names sc.objects).head? = some "vehicle_ego"
  capabilities_nodup : sc.capabilities.Nodup

theorem head?_of_start {α : Type} {a : α} {l m : List α} (h : l <+: m) (ha : l.head? = some a) : m.head? = some a := by
  obtain ⟨rest, rfl⟩ := h
  rw [List.head?_append, ha]
  rfl

theorem Coherent.install (h : sc.Coherent) (c : Capability) : (sc.install c).Coherent := by
  have hego := head?_of_start (names_prefix_install sc c) h.ego_first
  by_cases hc : sc.has c = true
  · rwa [install_of_has hc]
  · obtain ⟨hobjects, hcaps, -⟩ := install_parts (Bool.eq_false_iff.2 hc)
    refine ⟨hobjects ▸ TrafficObject.nodup_names_putAll h.names_nodup _, hego, ?_⟩
    rw [hcaps]
    exact h.capabilities_nodup.append (List.nodup_singleton c) (List.disjoint_singleton.2 fun hmem => hc (has_iff.2 hmem))

theorem Coherent.add (h : sc.Coherent) (o : TrafficObject) : (sc.add o).Coherent := by
  have hobjects := sc.objects_add o
  refine ⟨hobjects ▸ TrafficObject.nodup_names_putIn h.names_nodup o, ?_, ?_⟩
  · rw [hobjects]
    exact head?_of_start (TrafficObject.names_prefix_putIn o _) h.ego_first
  · rw [capabilities_add]
    exact h.capabilities_nodup

theorem coherent_basic (settings : ScenarioSettings) : (basic settings).Coherent := by
  have hnames : ["vehicle_ego", "destination"].Nodup := by decide
  exact ⟨hnames, rfl, List.nodup_nil⟩

theorem LeadsTo.coherent (h : sc.LeadsTo sc') (hsc : sc.Coherent) : sc'.Coherent := by
  induction h with
  | refl => exact hsc
  | install c _ ih => exact ih.install c
  | add o _ ih => exact ih.add o

/-! ## The order of installation -/

/-- The scenarios differ at most in the order of what they list. -/
structure SameContents (sc sc' : Scenario) : Prop where
  object?_eq : ∀ name, sc.object? name = sc'.object? name
  has_eq : ∀ c, sc.has c = sc'.has c
  symbols_eq : Dict.ofList sc.symbols = Dict.ofList sc'.symbols
  invariants_perm : sc.invariants.Perm sc'.invariants

theorem SameContents.refl (sc : Scenario) : SameContents sc sc := ⟨fun _ => rfl, fun _ => rfl, rfl, .refl _⟩

theorem capabilityInvariants_perm (hsettings : sc.settings = sc'.settings) (hego : sc.ego = sc'.ego)
    (hobjects : sc.objects.Perm sc'.objects) (c : Capability) :
    (sc.capabilityInvariants c).Perm (sc'.capabilityInvariants c) := by
  cases c with
  | intersection =>
    unfold capabilityInvariants
    rw [hsettings, hego]
    exact .append_left _ (((hobjects.filter _).filterMap _).map _)
  | crosswalk => exact .refl _
  | trafficLight => exact .refl _
  | stopSign => exact .refl _

theorem invariants_perm (hsettings : sc.settings = sc'.settings) (hego : sc.ego = sc'.ego)
    (hobjects : sc.objects.Perm sc'.objects) (hcaps : sc.capabilities.Perm sc'.capabilities) :
    sc.invariants.Perm sc'.invariants := by
  unfold invariants
  refine .append (.append_left _ (hobjects.flatMap_right _)) ?_
  exact hcaps.flatMap fun c _ => capabilityInvariants_perm hsettings hego hobjects c

/-- Objects that change places among themselves give the same names, if they give none twice. -/
theorem ofList_symbols_eq (hsettings : sc.settings = sc'.settings) (hego : sc.ego = sc'.ego)
    {kept last last' : List TrafficObject} (hobjects : sc.objects = kept ++ last) (hobjects' : sc'.objects = kept ++ last')
    (hperm : last.Perm last') (hnodup : (last.flatMap symbolNames).Nodup) :
    Dict.ofList sc.symbols = Dict.ofList sc'.symbols := by
  unfold symbols Dict.ofList
  rw [hobjects, hobjects', hsettings, hego]
  simp only [List.flatMap_append, List.foldl_append]
  exact Dict.foldl_insert_perm (hperm.flatMap_right _) ((map_fst_flatMap last).symm ▸ hnodup) _

theorem Coherent.object?_ego (h : sc.Coherent) : sc.object? "vehicle_ego" = some sc.ego := by
  have hname : sc.ego.name = "vehicle_ego" := Option.some.inj h.ego_first
  exact (TrafficObject.named?_eq_some_iff h.names_nodup).2 ⟨List.mem_cons_self, hname⟩

theorem install_pair_parts (hc : sc.has c = false) (hd : sc.has d = false) (hne : c ≠ d) :
    ((sc.install c).install d).objects = TrafficObject.putAll (c.objects ++ d.objects) sc.objects ∧
      ((sc.install c).install d).capabilities = sc.capabilities ++ [c, d] ∧
      ((sc.install c).install d).settings = sc.settings := by
  obtain ⟨hobjects, hcaps, hsettings⟩ := install_parts hc
  have hcd : (sc.install c).has d = false := by
    rw [Bool.eq_false_iff, Ne, has_iff, mem_capabilities_install, ← has_iff, hd]
    exact fun hmem => hmem.elim Bool.false_ne_true (Ne.symm hne)
  obtain ⟨hobjects', hcaps', hsettings'⟩ := install_parts hcd
  refine ⟨?_, ?_, hsettings'.trans hsettings⟩
  · rw [hobjects', hobjects]
    exact List.foldl_append.symm
  · rw [hcaps', hcaps, List.append_assoc]
    rfl

theorem Coherent.install_comm_of_new (h : sc.Coherent) (hc : sc.has c = false) (hd : sc.has d = false) (hne : c ≠ d) :
    SameContents ((sc.install c).install d) ((sc.install d).install c) := by
  obtain ⟨hobjects, hcaps, hsettings⟩ := install_pair_parts hc hd hne
  obtain ⟨hobjects', hcaps', hsettings'⟩ := install_pair_parts hd hc hne.symm
  have hsub : c.objects ++ d.objects ⊆ companions :=
    List.append_subset.2 ⟨objects_subset_companions c, objects_subset_companions d⟩
  have hone : TrafficObject.OneEach (c.objects ++ d.objects) := fun o ho p hp =>
    oneEach_companions o (hsub ho) p (hsub hp)
  have hsame : ∀ o, o ∈ c.objects ++ d.objects ↔ o ∈ d.objects ++ c.objects := fun o => by
    rw [List.mem_append, List.mem_append, or_comm]
  obtain ⟨kept, last, last', hkept, hkept', hperm, hlast⟩ := TrafficObject.putAll_reordered h.names_nodup hone hsame
  have hobject? : ∀ name, ((sc.install c).install d).object? name = ((sc.install d).install c).object? name := by
    intro name
    show TrafficObject.named? _ name = TrafficObject.named? _ name
    rw [hobjects, hobjects', TrafficObject.named?_putAll_congr hone hsame]
  have hego : ((sc.install c).install d).ego = ((sc.install d).install c).ego := by
    refine Option.some.inj ?_
    rw [← ((h.install c).install d).object?_ego, ← ((h.install d).install c).object?_ego, hobject?]
  -- what comes last are companions, and they give no name twice
  have hnames : (last.flatMap symbolNames).Nodup := by
    have hnodup := ((h.install c).install d).names_nodup
    rw [hobjects, hkept, TrafficObject.names, List.map_append] at hnodup
    exact nodup_flatMap_symbolNames hnodup.of_append_right fun o ho => undotted_companions o (hsub (hlast ho))
  have hcapsPerm : ((sc.install c).install d).capabilities.Perm ((sc.install d).install c).capabilities := by
    rw [hcaps, hcaps']
    exact .append_left _ (.swap ..)
  refine ⟨hobject?, fun e => ?_, ?_, ?_⟩
  · exact Bool.eq_iff_iff.2 (has_iff.trans (hcapsPerm.mem_iff.trans has_iff.symm))
  · exact ofList_symbols_eq (hsettings.trans hsettings'.symm) hego (hobjects.trans hkept) (hobjects'.trans hkept') hperm
      hnames
  · refine invariants_perm (hsettings.trans hsettings'.symm) hego ?_ hcapsPerm
    rw [hobjects, hobjects', hkept, hkept']
    exact .append_left _ hperm

theorem Coherent.install_comm (h : sc.Coherent) (c d : Capability) :
    SameContents ((sc.install c).install d) ((sc.install d).install c) := by
  -- with one of the two there already, both orders install the other one
  have hthere : ∀ {c d}, sc.has c = true → (sc.install c).install d = (sc.install d).install c := by
    intro c d hc
    have hdc : (sc.install d).has c = true := has_iff.2 ((mem_capabilities_install ..).2 (Or.inl (has_iff.1 hc)))
    rw [install_of_has hc, install_of_has hdc]
  by_cases hne : c = d
  · rw [hne]
    exact .refl _
  · by_cases hc : sc.has c = true
    · rw [hthere hc]
      exact .refl _
    · by_cases hd : sc.has d = true
      · rw [hthere hd]
        exact .refl _
      · exact h.install_comm_of_new (Bool.eq_false_iff.2 hc) (Bool.eq_false_iff.2 hd) hne

/-- What a capability that was not there brings: itself and its objects, and nothing under other names. -/
structure Brings (c : Capability) (sc sc' : Scenario) : Prop where
  has_iff : ∀ d, sc'.has d = true ↔ sc.has d = true ∨ d = c
  object?_new : ∀ o ∈ c.objects, sc'.object? o.name = some o
  object?_old : ∀ name, (∀ o ∈ c.objects, o.name ≠ name) → sc'.object? name = sc.object? name

theorem brings_install (h : sc.has c = false) : Brings c sc (sc.install c) := by
  have hobjects := (install_parts h).1
  have hone : TrafficObject.OneEach c.objects := fun o ho p hp =>
    oneEach_companions o (objects_subset_companions c ho) p (objects_subset_companions c hp)
  refine ⟨fun d => ?_, fun o ho => ?_, fun name hname => ?_⟩
  · rw [has_iff, has_iff, mem_capabilities_install]
  · show TrafficObject.named? (sc.install c).objects o.name = some o
    rw [hobjects, TrafficObject.named?_putAll_of_mem hone ho]
  · show TrafficObject.named? (sc.install c).objects name = _
    rw [hobjects, TrafficObject.named?_putAll_of_ne hname]
    rfl

theorem object?_add (sc : Scenario) (o : TrafficObject) (name : String) :
    (sc.add o).object? name = if o.name = name then some o else sc.object? name := by
  show TrafficObject.named? (sc.add o).objects name = _
  rw [objects_add, TrafficObject.named?_putIn]
  rfl

/-- Scenarios grow from the basic one without repeated names or capabilities and without moving what is
there; a second installation changes nothing, and the order of two installations shows only in the order
of what is listed. -/
theorem composed_in_any_order {settings : ScenarioSettings} (h : (basic settings).LeadsTo sc) :
    sc.Coherent ∧ (∀ sc', sc.LeadsTo sc' → TrafficObject.names sc.objects <+: TrafficObject.names sc'.objects) ∧
      (∀ o name, (sc.add o).object? name = if o.name = name then some o else sc.object? name) ∧
      (∀ c, if sc.has c then sc.install c = sc else Brings c sc (sc.install c)) ∧
      ∀ c d, SameContents ((sc.install c).install d) ((sc.install d).install c) := by
  have hcoherent := h.coherent (coherent_basic settings)
  refine ⟨hcoherent, fun _ hlater => hlater.names_kept, sc.object?_add, fun c => ?_, hcoherent.install_comm⟩
  split
  · exact install_of_has ‹_›
  · exact brings_install (Bool.eq_false_iff.2 ‹_›)

/-- The other vehicle is a pedestrian by that name until a capability puts its own there. -/
theorem composed_in_any_order_disguised :
    let sc := (basic {}).add { TrafficObject.ofKind .pedestrian "7" with name := "vehicle_0" }
    (basic {}).LeadsTo sc ∧
      TrafficObject.names ((sc.install .crosswalk).install .intersection).objects =
        ["vehicle_ego", "destination", "vehicle_0", "crosswalk_0", "pedestrian_0", "intersection"] ∧
      TrafficObject.names ((sc.install .intersection).install .crosswalk).objects =
        ["vehicle_ego", "destination", "vehicle_0", "intersection", "crosswalk_0", "pedestrian_0"] ∧
      SameContents ((sc.install .crosswalk).install .intersection) ((sc.install .intersection).install .crosswalk) :=
  ⟨.add _ .refl, by decide, by decide, (composed_in_any_order (.add _ .refl)).2.2.2.2 .crosswalk .intersection⟩

end Scenario

end RoadPolicy
