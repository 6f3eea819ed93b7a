import Mathlib
import LedgerSchema.Proofs.Schema.Imports

/-!
The namespaces that have a part in the schema. The walk passes over the types of the excluded
namespaces, but an enumeration and the map entry concept are declared where they belong as soon as a
field refers to them. Main statement: which namespaces have a part, and that an excluded one has a
part exactly if a field of a reflected type refers into it in this way.
-/

set_option autoImplicit false

namespace LedgerSchema

namespace Registry

variable {r : Registry} {parts : List Part} {ns : String}

/-- A namespace in which an enumeration or the map entry concept is declared because a field refers
to it. -/
def DeclaresIn (r : Registry) (f : Field) (ns : String) : Prop :=
  (∃ name e, f.Mentions name ∧ r.resolve name = .enum e ∧ e.ns = ns) ∨
    ns = entryNamespace ∧ (f.type = .map ∨ f.Mentions entryName ∧ ∃ d, r.type? entryName = some d)

theorem declaresIn_iff {owner : String} {f : Field} {s : SchemaField}
    (h : r.schemaField owner f = .ok s) :
    r.DeclaresIn f ns ↔ ∃ e, r.targetEntity? s = some e ∧ e.ns = ns := by
  constructor
  · rintro (⟨name, e, hname, he, hns⟩ | ⟨rfl, huse⟩)
    · exact ⟨.enum e, (targetEntity?_eq_enum_iff h).2 ⟨name, hname, he⟩, hns⟩
    · exact ⟨.model .entry, (targetEntity?_eq_model_iff_type h).2 ⟨rfl, huse⟩, rfl⟩
  · rintro ⟨e, he, hns⟩
    cases e with
    | enum e =>
      obtain ⟨name, hname, he⟩ := (targetEntity?_eq_enum_iff h).1 he
      exact .inl ⟨name, e, hname, he, hns⟩
    | model m =>
      obtain ⟨rfl, huse⟩ := (targetEntity?_eq_model_iff_type h).1 he
      exact .inr ⟨hns.symm, huse⟩

theorem mem_ns_declareEntry_iff :
    ns ∈ (declareEntry parts).map (·.ns) ↔ ns ∈ parts.map (·.ns) ∨ ns = entryNamespace := by
  unfold declareEntry
  split
  · rename_i hentry
    cases hpart : part? parts entryNamespace with
    | none =>
      rw [hpart] at hentry
      cases hentry
    | some p =>
      obtain ⟨hp, hns⟩ := part?_eq_some hpart
      refine (or_iff_left_of_imp ?_).symm
      rintro rfl
      exact List.mem_map.2 ⟨p, hp, hns⟩
  · exact mem_map_ns_updatePart_iff fun p hp => by rw [Part.ns_addModel, hp]

theorem mem_ns_declareTarget_iff {f : SchemaField} :
    ns ∈ (r.declareTarget parts f).map (·.ns) ↔
      ns ∈ parts.map (·.ns) ∨ ∃ e, r.targetEntity? f = some e ∧ e.ns = ns := by
  unfold declareTarget
  rcases htarget : f.target with _ | ⟨name, _ | kind⟩
  · simp [targetEntity?, htarget]
  · dsimp only
    cases henum : r.enum? name with
    | none => simp [targetEntity?, htarget, henum]
    | some e =>
      have hns (p : Part) (hp : p.ns = e.ns) : (p.addEnum e).ns = e.ns := by
        rw [Part.ns_addEnum, hp]
      rw [mem_map_ns_updatePart_iff hns]
      simp [targetEntity?, htarget, henum, SchemaEntity.ns, eq_comm]
  · by_cases hname : name = entryName
    · dsimp only
      rw [if_pos hname, mem_ns_declareEntry_iff]
      simp [targetEntity?, htarget, hname, SchemaEntity.ns, Model.entry, eq_comm]
    · simp [targetEntity?, htarget, hname]

theorem mem_ns_declareTargets_iff {fields : List SchemaField} :
    ns ∈ (fields.foldl r.declareTarget parts).map (·.ns) ↔
      ns ∈ parts.map (·.ns) ∨ ∃ e ∈ fields.filterMap r.targetEntity?, e.ns = ns := by
  induction fields generalizing parts with
  | nil => simp
  | cons f fields ih =>
    rw [List.foldl_cons, ih, mem_ns_declareTarget_iff, or_assoc]
    refine or_congr_right ?_
    cases hf : r.targetEntity? f with
    | none => simp [hf]
    | some e => simp [hf]

/-- One type: the part of its namespace, and the parts of what its fields refer to. -/
theorem mem_ns_reflectType_iff {kind : Kind} {d : TypeDecl} {parts' : List Part}
    (h : r.reflectType parts kind d = .ok parts') :
    ns ∈ parts'.map (·.ns) ↔
      ns ∈ parts.map (·.ns) ∨ d.ns = ns ∨ ∃ f ∈ d.markedFields, r.DeclaresIn f ns := by
  obtain ⟨m, hm, rfl⟩ := reflectType_eq_ok_iff.1 h
  have htargets : (∃ e ∈ m.fields.filterMap r.targetEntity?, e.ns = ns) ↔
      ∃ f ∈ d.markedFields, r.DeclaresIn f ns := by
    constructor
    · rintro ⟨e, he, hns⟩
      obtain ⟨f, hf, s, hs, he⟩ := (mem_targets_iff hm e).1 he
      exact ⟨f, hf, (declaresIn_iff hs).2 ⟨e, he, hns⟩⟩
    · rintro ⟨f, hf, hdeclares⟩
      obtain ⟨s, hs⟩ := exists_schemaField_of_model hm hf
      obtain ⟨e, he, hns⟩ := (declaresIn_iff hs).1 hdeclares
      exact ⟨e, (mem_targets_iff hm e).2 ⟨f, hf, s, hs, he⟩, hns⟩
  have hown : ns ∈ (updatePart d.ns id parts).map (·.ns) ↔ ns ∈ parts.map (·.ns) ∨ ns = d.ns :=
    mem_map_ns_updatePart_iff fun _ hp => hp
  rw [mem_map_ns_updatePart_iff fun p hp => by rw [Part.ns_addModel, hp],
    mem_ns_declareTargets_iff, htargets, hown]
  constructor
  · rintro (((h | rfl) | h) | rfl)
    · exact .inl h
    · exact .inr (.inl rfl)
    · exact .inr (.inr h)
    · exact .inr (.inl rfl)
  · rintro (h | rfl | h)
    · exact .inl (.inl (.inl h))
    · exact .inr rfl
    · exact .inl (.inr h)

theorem mem_ns_reflect_iff {excluded : List String} (h : r.reflect excluded = .ok parts) :
    ns ∈ parts.map (·.ns) ↔ ∃ t ∈ r.reflectedTypes excluded,
      t.2.ns = ns ∨ ∃ f ∈ t.2.markedFields, r.DeclaresIn f ns := by
  refine foldlM_invariant (I := fun done parts => ns ∈ parts.map (·.ns) ↔ ∃ t ∈ done,
    t.2.ns = ns ∨ ∃ f ∈ t.2.markedFields, r.DeclaresIn f ns) ?_ (by simp)
    (reflect_eq_ok_iff.1 h).2
  intro done t rest parts parts' _ hdone hstep
  rw [mem_ns_reflectType_iff hstep, hdone]
  simp [or_and_right, exists_or]

/-- The models of an excluded namespace are left out, whatever refers to them. -/
theorem ns_not_mem_of_model {excluded : List String} (h : r.reflect excluded = .ok parts) {p : Part}
    (hp : p ∈ parts) {m : Model} (hm : m ∈ p.models) : m = .entry ∨ p.ns ∉ excluded := by
  refine forall_mem_reflect (P := fun p => ∀ m ∈ p.models, m = .entry ∨ p.ns ∉ excluded)
    (fun ns m hm => absurd hm List.not_mem_nil) (fun p e _ hall => ?_)
    (fun p m hns hmodel hall => ?_) h p hp m hm
  · unfold Part.addEnum
    split
    · exact hall
    · intro m hm
      exact hall m (by simpa [Part.models, SchemaEntity.model?] using hm)
  · intro m' hm'
    rw [Part.ns_addModel]
    rw [Part.models_addModel, List.mem_append, List.mem_singleton] at hm'
    rcases hm' with hm' | rfl
    · exact hall m' hm'
    · refine hmodel.imp_right ?_
      rintro ⟨⟨k, d⟩, ht, hmodel⟩
      rw [hns, (isModelOf_of_model hmodel).ns_eq]
      exact (mem_reflectedTypes_iff.1 ht).2.2.2.1

/-- For every registry and every list of excluded namespaces: a namespace has a part exactly if a
reflected type lies in it, or if a marked field of a reflected type refers to one of its
enumerations, or, for the namespace of the map entry concept, to a map or to that concept. So the
excluded namespaces have no part exactly if no such field refers into one of them, and if one has a
part, there is no model in it but the map entry concept. -/
theorem excluded_part_iff {excluded : List String} (h : r.reflect excluded = .ok parts) :
    (∀ ns, (∃ p ∈ parts, p.ns = ns) ↔ ∃ t ∈ r.reflectedTypes excluded,
      t.2.ns = ns ∨ ∃ f ∈ t.2.markedFields, r.DeclaresIn f ns) ∧
    ((∀ p ∈ parts, p.ns ∉ excluded) ↔ ∀ t ∈ r.reflectedTypes excluded,
      ∀ f ∈ t.2.markedFields, ∀ ns ∈ excluded, ¬ r.DeclaresIn f ns) ∧
    ∀ p ∈ parts, p.ns ∈ excluded → ∀ m ∈ p.models, m = .entry := by
  have hpart (ns : String) : (∃ p ∈ parts, p.ns = ns) ↔ ∃ t ∈ r.reflectedTypes excluded,
      t.2.ns = ns ∨ ∃ f ∈ t.2.markedFields, r.DeclaresIn f ns := by
    rw [← mem_ns_reflect_iff h, List.mem_map]
  refine ⟨hpart, ⟨fun hnone t ht f hf ns hns hdeclares => ?_, fun hnone p hp hns => ?_⟩,
    fun p hp hns m hm => (ns_not_mem_of_model h hp hm).resolve_right (absurd hns)⟩
  · obtain ⟨p, hp, rfl⟩ := (hpart ns).2 ⟨t, ht, .inr ⟨f, hf, hdeclares⟩⟩
    exact hnone p hp hns
  · obtain ⟨t, ht, hown | ⟨f, hf, hdeclares⟩⟩ := (hpart p.ns).1 ⟨p, hp, rfl⟩
    · exact (mem_reflectedTypes_iff.1 ht).2.2.2.1 (hown ▸ hns)
    · exact hnone t ht f hf p.ns hns hdeclares

theorem excluded_part_of_garage : ∃ parts, garage.reflect [systemNamespace] = .ok parts ∧
    (∃ p ∈ parts, p.ns = entryNamespace) ∧ ∀ p ∈ parts, p.ns ∉ [systemNamespace] := by
  obtain ⟨parts, hparts⟩ : ∃ parts, garage.reflect [systemNamespace] = .ok parts :=
    ⟨_, reflect_eq_ok_iff.2 ⟨not_onCycle_garage, rfl⟩⟩
  obtain ⟨hpart, hnone, -⟩ := excluded_part_iff hparts
  refine ⟨parts, hparts, (hpart _).2 ⟨(.asset, Garage.car), by decide, .inr ⟨_,
    List.mem_cons_self, .inr ⟨rfl, .inl rfl⟩⟩⟩, hnone.2 fun t _ f _ ns hns hdeclares => ?_⟩
  obtain rfl := List.mem_singleton.1 hns
  rcases hdeclares with ⟨name, e, -, he, hns⟩ | ⟨hns, -⟩
  · have hmem : e ∈ garage.enums := List.mem_of_find?_eq_some (resolve_eq_enum_iff.1 he).2
    obtain rfl := List.mem_singleton.1 hmem
    exact absurd hns (by decide)
  · exact absurd hns (by decide)

/-! A part for an excluded namespace: for an enumeration that a field refers to, and for the map
entry concept that a map needs. -/

namespace Paint

def door : TypeDecl where
  ns := "org.acme"
  name := "Door"
  kind := some .concept
  fields := [.data "colour" (.named "org.internal.Colour")]

end Paint

def paintShop : Registry :=
  (standard.register Paint.door).registerEnum ⟨"org.internal", "Colour", ["RED", "BLUE"]⟩

theorem not_onCycle_paintShop (name : String) : ¬ paintShop.OnCycle name :=
  not_onCycle_of_rank (fun _ => 0) (by decide) name

/-- Excluding a namespace does not keep its part out of the schema. -/
theorem excluded_namespace_has_part :
    (∃ parts, paintShop.reflect ["org.internal"] = .ok parts ∧
      ∃ p ∈ parts, p.ns = "org.internal" ∧ p.fileName = "models/org.internal.cto") ∧
    ∃ parts, garage.reflect [entryNamespace] = .ok parts ∧
      ∃ p ∈ parts, p.ns = entryNamespace ∧
        p.fileName = "models/org.hyperledger.composer.model.cto" :=
  ⟨⟨_, reflect_eq_ok_iff.2 ⟨not_onCycle_paintShop, rfl⟩, by decide⟩,
    _, reflect_eq_ok_iff.2 ⟨not_onCycle_garage, rfl⟩, by decide⟩

end Registry

end LedgerSchema
