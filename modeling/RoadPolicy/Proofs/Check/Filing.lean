/-
Reports lose nothing and mix nothing up. Every name has one slot of a report, a field of an object or
its own name among the common values, and no two names share a slot. Filing a value sets its slot and
no other, so a report holds the entries of its model, each once, and nothing else.
-/
import Mathlib
import RoadPolicy.Check.ReportText
import RoadPolicy.Proofs.DictEntries

namespace RoadPolicy

/-! ## Names of fields -/

/-- The name of the field of an object: a label, an id of letters and digits and the field, which has
no line break, with underscores in between. -/
structure FilePlace.Named (p : FilePlace) (name : String) : Prop where
  kind : p.kind ∈ reportedKinds
  id : p.id ≠ "" ∧ ∀ c ∈ p.id.toList, c.isAlphanum = true
  field : p.field ≠ "" ∧ '\n' ∉ p.field.toList
  text : name = p.kind.label ++ "_" ++ p.id ++ "_" ++ p.field

theorem dropStart?_eq_some_iff {start rest : List Char} : ∀ {text : List Char},
    dropStart? start text = some rest ↔ text = start ++ rest := by
  induction start with
  | nil =>
    intro text
    rw [dropStart?, Option.some.injEq, List.nil_append]
  | cons c cs ih =>
    intro text
    cases text with
    | nil => simp [dropStart?]
    | cons d ds =>
      rw [dropStart?, List.cons_append, List.cons.injEq]
      by_cases hc : c = d
      · rw [if_pos hc, ih]
        simp [hc]
      · rw [if_neg hc]
        simp [Ne.symm hc]

/-- Letters and digits end at the first underscore. -/
theorem idAndField?_eq_some_iff {rest : List Char} {id field : String} :
    idAndField? rest = some (id, field) ↔ rest = '_' :: (id.toList ++ '_' :: field.toList) ∧
      (id ≠ "" ∧ ∀ c ∈ id.toList, c.isAlphanum = true) ∧ field ≠ "" ∧ '\n' ∉ field.toList := by
  constructor
  · intro h
    unfold idAndField? at h
    split at h
    · rename_i rest
      split at h
      · rename_i text hdrop
        dsimp only at h
        split at h
        · cases h
        · rename_i hgood
          cases h
          simp only [Bool.or_eq_true, List.isEmpty_iff, List.contains_iff_mem, not_or] at hgood
          obtain ⟨⟨hid, htext⟩, hbreak⟩ := hgood
          refine ⟨?_, ⟨fun he => hid ?_, ?_⟩, fun he => htext ?_, ?_⟩
          · rw [String.toList_ofList, String.toList_ofList, ← hdrop, List.takeWhile_append_dropWhile]
          · rw [← String.toList_ofList (l := rest.takeWhile _), he, String.toList_empty]
          · rw [String.toList_ofList]
            intro c hc
            exact List.all_eq_true.1 List.all_takeWhile c hc
          · rw [← String.toList_ofList (l := text), he, String.toList_empty]
          · rwa [String.toList_ofList]
      · cases h
    · cases h
  · rintro ⟨rfl, ⟨hid, halnum⟩, hfield, hbreak⟩
    have hend : Char.isAlphanum '_' = false := by decide
    have htake : (id.toList ++ '_' :: field.toList).takeWhile Char.isAlphanum = id.toList := by
      rw [List.takeWhile_append_of_pos halnum, List.takeWhile_cons, hend]
      simp
    have hdrop : (id.toList ++ '_' :: field.toList).dropWhile Char.isAlphanum = '_' :: field.toList := by
      rw [List.dropWhile_append_of_pos halnum, List.dropWhile_cons, hend]
      simp
    have hid' : id.toList ≠ [] := fun h => hid (String.toList_eq_nil_iff.1 h)
    have hfield' : field.toList ≠ [] := fun h => hfield (String.toList_eq_nil_iff.1 h)
    simp only [idAndField?, htake, hdrop]
    rw [if_neg (by simp [hid', hfield', hbreak]), String.ofList_toList, String.ofList_toList]

/-- No label starts another one. -/
theorem label_prefix_free : ∀ k ∈ reportedKinds, ∀ k' ∈ reportedKinds,
    k.label.toList <+: k'.label.toList → k = k' := by decide

namespace FilePlace.Named

variable {p q : FilePlace} {name : String}

theorem toList_eq (h : p.Named name) :
    name.toList = p.kind.label.toList ++ '_' :: (p.id.toList ++ '_' :: p.field.toList) := by
  rw [h.text]
  simp

theorem idAndField (h : p.Named name) :
    idAndField? ('_' :: (p.id.toList ++ '_' :: p.field.toList)) = some (p.id, p.field) :=
  idAndField?_eq_some_iff.2 ⟨rfl, h.id, h.field⟩

/-- A name is cut into label, id and field in one way at most. -/
theorem unique (hp : p.Named name) (hq : q.Named name) : p = q := by
  have hcut := hp.toList_eq.symm.trans hq.toList_eq
  -- of two labels that start one name, one starts the other
  have hkind : p.kind = q.kind := by
    have hstart := List.prefix_append p.kind.label.toList ('_' :: (p.id.toList ++ '_' :: p.field.toList))
    rw [hcut] at hstart
    rcases List.prefix_or_prefix_of_prefix hstart (List.prefix_append _ _) with h | h
    · exact label_prefix_free _ hp.kind _ hq.kind h
    · exact (label_prefix_free _ hq.kind _ hp.kind h).symm
  rw [hkind] at hcut
  have hrest := List.append_cancel_left hcut
  have hpair := hp.idAndField
  rw [hrest, hq.idAndField] at hpair
  cases p; cases q; cases hkind; cases hpair
  rfl

end FilePlace.Named

theorem named_of_dropStart? {name : String} {kind : ObjectKind} {q : FilePlace} (hkind : kind ∈ reportedKinds)
    (h : (match dropStart? kind.label.toList name.toList with
      | none => none
      | some rest => (idAndField? rest).map fun r => (⟨kind, r.1, r.2⟩ : FilePlace)) = some q) : q.Named name := by
  split at h
  · cases h
  · rename_i rest hrest
    obtain ⟨⟨id, field⟩, hsplit, rfl⟩ := Option.map_eq_some_iff.1 h
    obtain ⟨rfl, hid, hfield⟩ := idAndField?_eq_some_iff.1 hsplit
    refine ⟨hkind, hid, hfield, String.toList_injective ?_⟩
    rw [dropStart?_eq_some_iff.1 hrest]
    simp

/-- The reader of names finds exactly the names of fields. -/
theorem filePlace?_eq_some_iff {name : String} {p : FilePlace} : filePlace? name = some p ↔ p.Named name := by
  constructor
  · intro h
    obtain ⟨kind, hkind, h⟩ := List.exists_of_findSome?_eq_some h
    exact named_of_dropStart? hkind h
  · intro hp
    have hdrop : dropStart? p.kind.label.toList name.toList = some ('_' :: (p.id.toList ++ '_' :: p.field.toList)) :=
      dropStart?_eq_some_iff.2 hp.toList_eq
    rcases hf : filePlace? name with _ | q
    · have hnone := List.findSome?_eq_none_iff.1 hf p.kind hp.kind
      rw [hdrop] at hnone
      simp only [hp.idAndField] at hnone
      cases hnone
    · obtain ⟨kind, hkind, hq⟩ := List.exists_of_findSome?_eq_some hf
      rw [(named_of_dropStart? hkind hq).unique hp]

/-! ## Slots -/

/-- A place for one value in a report. -/
inductive Slot where
  | common (name : String)
  | field (place : FilePlace)
deriving DecidableEq

/-- Where the value of a name belongs. -/
inductive FiledAt (name : String) : Slot → Prop
  | field {p : FilePlace} : p.Named name → FiledAt name (.field p)
  | common : (∀ p : FilePlace, ¬ p.Named name) → FiledAt name (.common name)

/-- The slot of a name. -/
def slotOf (name : String) : Slot :=
  match filePlace? name with
  | some p => .field p
  | none => .common name

theorem filedAt_iff {name : String} {slot : Slot} : FiledAt name slot ↔ slotOf name = slot := by
  unfold slotOf
  rcases hplace : filePlace? name with _ | p
  · have hno : ∀ p : FilePlace, ¬ p.Named name := fun p hp => by
      rw [filePlace?_eq_some_iff.2 hp] at hplace
      cases hplace
    constructor
    · rintro (h | h)
      · exact absurd h (hno _)
      · rfl
    · rintro rfl
      exact .common hno
  · have hp := filePlace?_eq_some_iff.1 hplace
    constructor
    · rintro (h | h)
      · rw [hp.unique h]
      · exact absurd hp (h p)
    · rintro rfl
      exact .field hp

theorem FiledAt.name_unique {a b : String} {slot : Slot} (ha : FiledAt a slot) (hb : FiledAt b slot) : a = b := by
  cases ha with
  | field hp =>
    cases hb with
    | field hq => rw [hp.text, hq.text]
  | common =>
    cases hb
    rfl

/-- Distinct names have distinct slots. -/
theorem slotOf_injective : Function.Injective slotOf :=
  fun _ _ h => (filedAt_iff.2 rfl).name_unique (filedAt_iff.2 h.symm)

/-! ## Filing one value -/

namespace Report

/-- The value in a slot. -/
def get? (r : Report) : Slot → Option Scalar
  | .common name => r.common.get? name
  | .field p => r.field? p.kind p.id p.field

theorem field?_fileField (r : Report) (p q : FilePlace) (v : Scalar) :
    (r.fileField p v).field? q.kind q.id q.field = if p = q then some v else r.field? q.kind q.id q.field := by
  obtain ⟨kind, id, field⟩ := p
  obtain ⟨kind', id', field'⟩ := q
  simp only [field?, fileField, FilePlace.mk.injEq]
  by_cases hkind : kind' = kind
  · subst hkind
    rw [if_pos rfl, Dict.get?_insert]
    by_cases hid : id = id'
    · subst hid
      rw [if_pos rfl, Option.bind_some, Dict.get?_insert]
      -- an object that has no fields yet answers for none
      have hfields : ((((r.bucket kind').get? id).getD .empty).get? field') =
          ((r.bucket kind').get? id).bind (·.get? field') := by
        cases (r.bucket kind').get? id <;> rfl
      rw [hfields]
      simp
    · rw [if_neg hid]
      simp [hid]
  · rw [if_neg hkind]
    simp [Ne.symm hkind]

/-- Filing a value sets the slot of its name and no other. -/
theorem get?_file (r : Report) (name : String) (v : Scalar) (slot : Slot) :
    (r.file name v).get? slot = if slotOf name = slot then some v else r.get? slot := by
  unfold file slotOf
  rcases filePlace? name with _ | p
  · cases slot with
    | common other =>
      show (r.common.insert name v).get? other = _
      rw [Dict.get?_insert]
      simp [get?]
    | field q => rfl
  · cases slot with
    | common other => rfl
    | field q =>
      show (r.fileField p v).field? q.kind q.id q.field = _
      rw [field?_fileField]
      simp [get?]

/-! ## Filing a model -/

/-- Values filed one after the other, under distinct names. -/
theorem get?_foldl_file (slot : Slot) (v : Scalar) : ∀ (l : List (String × Scalar)) (r : Report),
    (l.map Prod.fst).Nodup →
    ((l.foldl (fun r e => r.file e.1 e.2) r).get? slot = some v ↔
      (∃ e ∈ l, slotOf e.1 = slot ∧ e.2 = v) ∨ (∀ e ∈ l, slotOf e.1 ≠ slot) ∧ r.get? slot = some v)
  | [], r, _ => by simp
  | (name, w) :: l, r, h => by
    rw [List.map_cons, List.nodup_cons] at h
    rw [List.foldl_cons, get?_foldl_file slot v l _ h.2, get?_file]
    by_cases hslot : slotOf name = slot
    · -- no later name shares the slot
      have hlater : ∀ e ∈ l, slotOf e.1 ≠ slot := by
        intro e he heq
        have hname : e.1 = name := slotOf_injective (heq.trans hslot.symm)
        exact h.1 (List.mem_map.2 ⟨e, he, hname⟩)
      rw [if_pos hslot, List.exists_mem_cons_iff, List.forall_mem_cons]
      simp only [hslot, ne_eq, not_true_eq_false, false_and, or_false, true_and, Option.some.injEq]
      constructor
      · rintro (hex | ⟨-, hw⟩)
        · exact .inr hex
        · exact .inl hw
      · rintro (hw | hex)
        · exact .inr ⟨hlater, hw⟩
        · exact .inl hex
    · rw [if_neg hslot]
      simp [hslot]

theorem ofModel_eq (m : Model) :
    ofModel m = m.toAssignment.entries.foldl (fun r e => r.file e.1 e.2) empty := by
  rw [ofModel, Model.toAssignment, Dict.map, List.foldl_map]

/-- A report has in a slot the value that the model has for the name of the slot. -/
theorem get?_ofModel (m : Model) (slot : Slot) (v : Scalar) :
    (ofModel m).get? slot = some v ↔ ∃ name, FiledAt name slot ∧ m.toAssignment.get? name = some v := by
  have hempty : empty.get? slot = none := by cases slot <;> rfl
  rw [ofModel_eq, get?_foldl_file slot v _ _ (Dict.nodup_keys _), hempty]
  simp only [reduceCtorEq, and_false, or_false, filedAt_iff, Dict.get?_eq_some_iff]
  constructor
  · rintro ⟨⟨name, w⟩, he, hslot, rfl⟩
    exact ⟨name, hslot, he⟩
  · rintro ⟨name, hslot, he⟩
    exact ⟨(name, v), he, hslot, rfl⟩

/-- No object is listed without fields. -/
def Filled (r : Report) : Prop := ∀ kind id fields, (r.bucket kind).get? id = some fields → fields.isEmpty = false

theorem Filled.file {r : Report} (h : r.Filled) (name : String) (v : Scalar) : (r.file name v).Filled := by
  unfold Report.file
  split
  · rename_i p _
    intro kind id fields hfields
    simp only [fileField] at hfields
    split at hfields
    · rw [Dict.get?_insert] at hfields
      split at hfields
      · cases hfields
        exact Dict.isEmpty_insert _ _ _
      · exact h _ _ _ hfields
    · exact h _ _ _ hfields
  · exact h

theorem filled_ofModel (m : Model) : (ofModel m).Filled := by
  have hfold : ∀ (l : List (String × Scalar)) (r : Report), r.Filled →
      (l.foldl (fun r e => r.file e.1 e.2) r).Filled := by
    intro l
    induction l with
    | nil => exact fun r hr => hr
    | cons e l ih => exact fun r hr => ih _ (hr.file e.1 e.2)
  rw [ofModel_eq]
  refine hfold _ _ ?_
  intro kind id fields h
  cases h

/-! ## The entries of a report -/

/-- The values of one object with their slots. -/
def fieldEntries (kind : ObjectKind) (o : String × Dict Scalar) : List (Slot × Scalar) :=
  o.2.entries.map fun e => (.field ⟨kind, o.1, e.1⟩, e.2)

/-- All values with their slots, the common ones first. -/
def entries (r : Report) : List (Slot × Scalar) :=
  r.common.entries.map (fun e => (.common e.1, e.2)) ++
    reportedKinds.flatMap fun kind => (r.bucket kind).entries.flatMap (fieldEntries kind)

theorem mem_entries_common {r : Report} {name : String} {v : Scalar} :
    (.common name, v) ∈ r.entries ↔ r.common.get? name = some v := by
  simp [entries, fieldEntries, Dict.get?_eq_some_iff]

theorem mem_entries_field {r : Report} {p : FilePlace} {v : Scalar} :
    (.field p, v) ∈ r.entries ↔ p.kind ∈ reportedKinds ∧ r.field? p.kind p.id p.field = some v := by
  obtain ⟨kind, id, field⟩ := p
  simp only [entries, fieldEntries, field?, Option.bind_eq_some_iff, Dict.get?_eq_some_iff, List.mem_append,
    List.mem_flatMap, List.mem_map, Prod.mk.injEq, reduceCtorEq, false_and, and_false, exists_false, false_or,
    Slot.field.injEq, FilePlace.mk.injEq]
  constructor
  · rintro ⟨_, hkind, ⟨_, fields⟩, ho, ⟨_, _⟩, he, ⟨rfl, rfl, rfl⟩, rfl⟩
    exact ⟨hkind, fields, ho, he⟩
  · rintro ⟨hkind, fields, ho, he⟩
    exact ⟨kind, hkind, (id, fields), ho, (field, v), he, ⟨rfl, rfl, rfl⟩, rfl⟩

theorem nodup_fieldSlots (kind : ObjectKind) (d : Bucket) :
    (d.entries.flatMap fun o => o.2.entries.map fun e => Slot.field ⟨kind, o.1, e.1⟩).Nodup := by
  rw [List.nodup_flatMap]
  constructor
  · intro o _
    have hinj : Function.Injective fun field => Slot.field ⟨kind, o.1, field⟩ := by
      intro a b h
      cases h
      rfl
    have := (Dict.nodup_keys o.2).map hinj
    rwa [List.map_map] at this
  · refine (List.pairwise_map.1 d.nodup_keys).imp fun hid slot h h' => hid ?_
    obtain ⟨e, _, rfl⟩ := List.mem_map.1 h
    obtain ⟨e', _, he'⟩ := List.mem_map.1 h'
    simp only [Slot.field.injEq, FilePlace.mk.injEq] at he'
    exact he'.2.1.symm

/-- No slot is listed twice. -/
theorem nodup_slots (r : Report) : (r.entries.map Prod.fst).Nodup := by
  have hslots : r.entries.map Prod.fst = (r.common.entries.map Prod.fst).map .common ++
      reportedKinds.flatMap fun kind =>
        (r.bucket kind).entries.flatMap fun o => o.2.entries.map fun e => .field ⟨kind, o.1, e.1⟩ := by
    simp [entries, fieldEntries, List.map_flatMap, Function.comp_def]
  rw [hslots, List.nodup_append]
  refine ⟨r.common.nodup_keys.map fun a b h => Slot.common.inj h, List.nodup_flatMap.2 ⟨?_, ?_⟩, ?_⟩
  · exact fun kind _ => nodup_fieldSlots kind _
  · have hkinds : reportedKinds.Nodup := by decide
    refine hkinds.imp fun hne slot h h' => hne ?_
    obtain ⟨o, _, h⟩ := List.mem_flatMap.1 h
    obtain ⟨e, _, rfl⟩ := List.mem_map.1 h
    obtain ⟨o', _, h'⟩ := List.mem_flatMap.1 h'
    obtain ⟨e', _, he'⟩ := List.mem_map.1 h'
    simp only [Slot.field.injEq, FilePlace.mk.injEq] at he'
    exact he'.1.symm
  · intro a ha b hb
    obtain ⟨name, _, rfl⟩ := List.mem_map.1 ha
    obtain ⟨kind, _, h⟩ := List.mem_flatMap.1 hb
    obtain ⟨o, _, h⟩ := List.mem_flatMap.1 h
    obtain ⟨e, _, rfl⟩ := List.mem_map.1 h
    exact Slot.noConfusion

/-- The values of a report are those of its model, each in the slot of its name. -/
theorem entries_ofModel (m : Model) :
    (ofModel m).entries.Perm (m.toAssignment.entries.map fun e => (slotOf e.1, e.2)) := by
  have hmodel : ((m.toAssignment.entries.map fun e => (slotOf e.1, e.2)).map Prod.fst).Nodup := by
    have := m.toAssignment.nodup_keys.map slotOf_injective
    rwa [List.map_map] at this ⊢
  have hmem : ∀ slot v, (slot, v) ∈ (ofModel m).entries ↔ (ofModel m).get? slot = some v := by
    intro slot v
    cases slot with
    | common name => exact mem_entries_common
    | field p =>
      -- a field that has a value belongs to an object of a kind that is listed
      refine mem_entries_field.trans (and_iff_right_of_imp fun h => ?_)
      obtain ⟨name, hname, -⟩ := (get?_ofModel m (.field p) v).1 h
      cases hname with
      | field hp => exact hp.kind
  rw [List.perm_ext_iff_of_nodup (nodup_slots _).of_map hmodel.of_map]
  rintro ⟨slot, v⟩
  rw [hmem, get?_ofModel]
  simp only [filedAt_iff, Dict.get?_eq_some_iff, List.mem_map, Prod.mk.injEq]
  constructor
  · rintro ⟨name, hslot, he⟩
    exact ⟨(name, v), he, hslot, rfl⟩
  · rintro ⟨⟨name, w⟩, he, hslot, rfl⟩
    exact ⟨name, hslot, he⟩

theorem isEmpty_iff_entries {r : Report} (h : r.Filled) : r.isEmpty = true ↔ r.entries = [] := by
  have hcount : r.objectCount = 0 ↔ ∀ kind ∈ reportedKinds, (r.bucket kind).entries = [] := by
    simp [objectCount, reportedKinds, Dict.size, and_assoc]
  have hbucket : ∀ kind, (r.bucket kind).entries.flatMap (fieldEntries kind) = [] ↔ (r.bucket kind).entries = [] := by
    intro kind
    rw [List.flatMap_eq_nil_iff]
    constructor
    · intro hall
      rw [List.eq_nil_iff_forall_not_mem]
      rintro ⟨id, fields⟩ ho
      have hfields := h kind id fields (Dict.get?_eq_some_iff.2 ho)
      rw [Bool.eq_false_iff] at hfields
      exact hfields (Dict.isEmpty_iff.2 (List.map_eq_nil_iff.1 (hall _ ho)))
    · intro hnil
      rw [hnil]
      exact List.forall_mem_nil _
  rw [isEmpty, Bool.and_eq_true, Dict.isEmpty_iff, beq_iff_eq, hcount, entries, List.append_eq_nil_iff,
    List.map_eq_nil_iff, List.flatMap_eq_nil_iff]
  simp only [hbucket]

/-- The report of a model has every entry of the model once and nothing else. A name is filed as the
field of an object exactly if it is the name of such a field, and else under itself; a name has only
one slot and a slot only one name, so no value is written over another. All buckets are there, also
the empty ones, and the report is empty exactly if the model is. -/
theorem ofModel_lossless (m : Model) :
    (∀ name slot, FiledAt name slot ↔ slotOf name = slot) ∧ Function.Injective slotOf ∧
    (ofModel m).entries.Perm (m.toAssignment.entries.map fun e => (slotOf e.1, e.2)) ∧
    (∀ slot v, (ofModel m).get? slot = some v ↔ ∃ name, FiledAt name slot ∧ m.toAssignment.get? name = some v) ∧
    (∀ kind id fields, ((ofModel m).bucket kind).get? id = some fields → fields.isEmpty = false) ∧
    (∃ fields, (ofModel m).toJson = .object fields ∧ fields.map Prod.fst =
      ["common", "crosswalk", "pedestrian", "stop_sign", "traffic_light", "vehicle", "yield_sign"]) ∧
    ((ofModel m).isEmpty = true ↔ m.isEmpty = true) := by
  refine ⟨fun name slot => filedAt_iff, slotOf_injective, entries_ofModel m, get?_ofModel m, filled_ofModel m,
    ⟨_, rfl, rfl⟩, ?_⟩
  rw [isEmpty_iff_entries (filled_ofModel m), Dict.isEmpty_iff, ← List.length_eq_zero_iff,
    (entries_ofModel m).length_eq, ← List.length_eq_zero_iff, List.length_map]
  show (m.entries.map _).length = 0 ↔ _
  rw [List.length_map]

/-- An id ends at the first underscore; a name without an id is common, even after a label. -/
theorem ofModel_lossless_light :
    let m : Model := Dict.ofList [("traffic_light_self_color_2", .int 3), ("vehicle__pos", .bool true)]
    let fields : Dict Scalar := Dict.empty.insert "color_2" (.int 3)
    FiledAt "traffic_light_self_color_2" (.field ⟨.trafficLight, "self", "color_2"⟩) ∧
      FiledAt "vehicle__pos" (.common "vehicle__pos") ∧
      ((ofModel m).bucket .trafficLight).get? "self" = some fields ∧ fields.isEmpty = false ∧
      (ofModel m).get? (.field ⟨.trafficLight, "self", "color_2"⟩) = some (.int 3) ∧
      (ofModel m).get? (.common "vehicle__pos") = some (.bool true) ∧ (ofModel m).isEmpty = false := by
  intro m fields
  obtain ⟨hslot, -, -, hvalue, hfilled, -, hempty⟩ := ofModel_lossless m
  have hlight := (hslot "traffic_light_self_color_2" (.field ⟨.trafficLight, "self", "color_2"⟩)).2 (by decide)
  have hpos := (hslot "vehicle__pos" (.common "vehicle__pos")).2 (by decide)
  have hbucket : ((ofModel m).bucket .trafficLight).get? "self" = some fields := by
    cbv
  refine ⟨hlight, hpos, hbucket, hfilled _ _ _ hbucket, (hvalue _ _).2 ⟨_, hlight, by cbv⟩,
    (hvalue _ _).2 ⟨_, hpos, by cbv⟩, ?_⟩
  rw [Bool.eq_false_iff]
  intro h
  exact absurd (hempty.1 h) (by decide)

end Report

end RoadPolicy
