import Mathlib
import LedgerSchema.Proofs.Schema.Parts
import LedgerSchema.Proofs.Schema.Target

/-!
What the schema of a registry consists of. The walk over the types is a walk that appends entities
to one list, each unless it is there: the models of the types in their order, and before each what
its fields refer to.
-/

set_option autoImplicit false

namespace LedgerSchema

namespace Part

theorem ns_addImport (p : Part) (name : String) : (p.addImport name).ns = p.ns := by
  unfold addImport
  split <;> rfl

theorem entities_addImport (p : Part) (name : String) :
    (p.addImport name).entities = p.entities := by
  unfold addImport
  split <;> rfl

theorem ns_addModel (p : Part) (m : Model) : (p.addModel m).ns = p.ns := by
  have himports (names : List String) (p : Part) : (names.foldl addImport p).ns = p.ns := by
    induction names generalizing p with
    | nil => rfl
    | cons name names ih => rw [List.foldl_cons, ih, ns_addImport]
  exact himports _ p

theorem ns_addEnum (p : Part) (e : EnumDecl) : (p.addEnum e).ns = p.ns := by
  unfold addEnum
  split <;> rfl

theorem entities_addModel (p : Part) (m : Model) :
    (p.addModel m).entities = p.entities ++ [.model m] := by
  have himports (names : List String) (p : Part) :
      (names.foldl addImport p).entities = p.entities := by
    induction names generalizing p with
    | nil => rfl
    | cons name names ih => rw [List.foldl_cons, ih, entities_addImport]
  rw [addModel]
  dsimp only
  rw [himports]

end Part

/-- Appends an entity unless there is one of its key. -/
def insertEntity (entities : List SchemaEntity) (e : SchemaEntity) : List SchemaEntity :=
  if e.key ∈ entities.map SchemaEntity.key then entities else entities ++ [e]

theorem key_mem_map_iff {entities : List SchemaEntity} {e : SchemaEntity} :
    e.key ∈ entities.map SchemaEntity.key ↔ ∃ e' ∈ entities, e'.ns = e.ns ∧ e'.name = e.name := by
  simp [SchemaEntity.key]

theorem nodup_insertEntity {entities : List SchemaEntity}
    (h : (entities.map SchemaEntity.key).Nodup) (e : SchemaEntity) :
    ((insertEntity entities e).map SchemaEntity.key).Nodup := by
  unfold insertEntity
  split
  · exact h
  · simp_all [List.nodup_append]

namespace Registry

variable {r : Registry} {parts : List Part} {entities : List SchemaEntity}

theorem partsHold_declareEntry (h : PartsHold parts entities) :
    PartsHold (declareEntry parts) (insertEntity entities (.model .entry)) := by
  have hmem := (h.any_contains entryNamespace (simpleName entryName)).trans
    (key_mem_map_iff (e := .model .entry)).symm
  unfold declareEntry insertEntity
  by_cases hkey : SchemaEntity.key (.model .entry) ∈ entities.map SchemaEntity.key
  · rw [if_pos (hmem.2 hkey), if_pos hkey]
    exact h
  · rw [if_neg (mt hmem.1 hkey), if_neg hkey]
    refine h.update (by simp [SchemaEntity.ns, Model.entry]) ?_ ?_
    · exact fun p hp => by rw [Part.ns_addModel, hp]
    · exact fun p _ _ => p.entities_addModel .entry

theorem partsHold_addEnum (h : PartsHold parts entities) (e : EnumDecl) :
    PartsHold (updatePart e.ns (·.addEnum e) parts) (insertEntity entities (.enum e)) := by
  have hcontains (p : Part) (hp : p.entities = entities.filter (·.ns = e.ns)) :
      p.contains e.name = true ↔
        SchemaEntity.key (.enum e) ∈ entities.map SchemaEntity.key := by
    rw [key_mem_map_iff]
    change _ ↔ ∃ e' ∈ entities, e'.ns = e.ns ∧ e'.name = e.name
    simp [Part.contains, hp]
  unfold insertEntity
  by_cases hkey : SchemaEntity.key (.enum e) ∈ entities.map SchemaEntity.key
  · rw [if_pos hkey]
    have hsame : PartsHold (updatePart e.ns (·.addEnum e) parts) (entities ++ []) :=
      h.update (by simp) (fun p hp => by rw [Part.ns_addEnum, hp])
        fun p _ hp => by simp [Part.addEnum, (hcontains p hp).2 hkey]
    simpa using hsame
  · rw [if_neg hkey]
    refine h.update (by simp [SchemaEntity.ns]) (fun p hp => by rw [Part.ns_addEnum, hp])
      fun p _ hp => ?_
    simp [Part.addEnum, mt (hcontains p hp).1 hkey]

def declareTargets (r : Registry) (entities : List SchemaEntity) (fields : List SchemaField) :
    List SchemaEntity :=
  (fields.filterMap r.targetEntity?).foldl insertEntity entities

theorem partsHold_declareTarget (h : PartsHold parts entities) (f : SchemaField) :
    PartsHold (r.declareTarget parts f) (r.declareTargets entities [f]) := by
  unfold declareTarget declareTargets
  rcases htarget : f.target with _ | ⟨name, _ | kind⟩
  · simpa [targetEntity?, htarget] using h
  · cases henum : r.enum? name with
    | none => simpa [targetEntity?, htarget, henum] using h
    | some e => simpa [targetEntity?, htarget, henum] using partsHold_addEnum h e
  · by_cases hname : name = entryName
    · simpa [targetEntity?, htarget, hname] using partsHold_declareEntry h
    · simpa [targetEntity?, htarget, hname] using h

theorem partsHold_declareTargets (h : PartsHold parts entities) (fields : List SchemaField) :
    PartsHold (fields.foldl r.declareTarget parts) (r.declareTargets entities fields) := by
  induction fields generalizing parts entities with
  | nil => exact h
  | cons f fields ih =>
    have hrest := ih (partsHold_declareTarget (r := r) h f)
    unfold declareTargets at hrest ⊢
    rw [← List.foldl_append, ← List.filterMap_append] at hrest
    exact hrest

/-- One type: what its fields refer to, and then its model. -/
theorem partsHold_reflectType (h : PartsHold parts entities) {kind : Kind} {d : TypeDecl}
    {parts' : List Part} (hstep : r.reflectType parts kind d = .ok parts') :
    ∃ m, r.model kind d = .ok m ∧
      PartsHold parts' (r.declareTargets entities m.fields ++ [.model m]) := by
  obtain ⟨m, hm, rfl⟩ := reflectType_eq_ok_iff.1 hstep
  refine ⟨m, hm, ?_⟩
  have htouched : PartsHold (updatePart d.ns id parts) (entities ++ []) :=
    h.update (by simp) (fun _ hp => hp) (by simp)
  rw [List.append_nil] at htouched
  refine (partsHold_declareTargets htouched m.fields).update ?_ ?_ ?_
  · simp [SchemaEntity.ns, (isModelOf_of_model hm).ns_eq]
  · exact fun p hp => by rw [Part.ns_addModel, hp]
  · exact fun p _ _ => p.entities_addModel m

/-! The entities that a registry can declare. -/

/-- What may be in the schema: the map entry concept, models of other types, and enumerations that
no type hides. -/
def MayDeclare (r : Registry) : SchemaEntity → Prop
  | .model m => m = .entry ∨ ∃ k d, r.type? d.qualifiedName = some d ∧ d.kind = some k ∧
      d.qualifiedName ≠ entryName ∧ r.model k d = .ok m
  | .enum e => r.resolve e.qualifiedName = .enum e

theorem IsModelOf.qualifiedName {k : Kind} {d : TypeDecl} {m : Model} (h : r.IsModelOf k d m) :
    m.qualifiedName = d.qualifiedName := by
  rw [Model.qualifiedName, h.ns_eq, h.name_eq]
  rfl

theorem qualifiedName_entity_entry : (SchemaEntity.model .entry).qualifiedName = entryName := by
  decide

/-- The name of a model is the name of a registered type, so no enumeration has it. -/
theorem MayDeclare.enum_ne_model (hbuilt : r.Built) {m : Model} {e : EnumDecl}
    (hm : r.MayDeclare (.model m)) (he : r.MayDeclare (.enum e)) :
    (SchemaEntity.model m).qualifiedName ≠ (SchemaEntity.enum e).qualifiedName := by
  obtain ⟨d, hd⟩ : ∃ d, r.type? (SchemaEntity.model m).qualifiedName = some d := by
    rcases hm with rfl | ⟨k, d, hd, -, -, hm⟩
    · obtain ⟨entry, hentry⟩ := hbuilt.exists_entry
      exact ⟨entry, by rw [qualifiedName_entity_entry, hentry]⟩
    · refine ⟨d, ?_⟩
      change r.type? m.qualifiedName = some d
      rwa [(isModelOf_of_model hm).qualifiedName]
  have hnone : r.type? (SchemaEntity.enum e).qualifiedName = none := (resolve_eq_enum_iff.1 he).1
  intro hname
  rw [hname, hnone] at hd
  cases hd

theorem MayDeclare.model_unique {m m' : Model} (hm : r.MayDeclare (.model m))
    (hm' : r.MayDeclare (.model m'))
    (hname : (SchemaEntity.model m).qualifiedName = (SchemaEntity.model m').qualifiedName) :
    m = m' := by
  have hown {m : Model} {k : Kind} {d : TypeDecl} (hm : r.model k d = .ok m) :
      (SchemaEntity.model m).qualifiedName = d.qualifiedName :=
    (isModelOf_of_model hm).qualifiedName
  rcases hm with rfl | ⟨k, d, hd, hk, hne, hm⟩ <;>
    rcases hm' with rfl | ⟨k', d', hd', hk', hne', hm'⟩
  · rfl
  · rw [qualifiedName_entity_entry, hown hm'] at hname
    exact absurd hname.symm hne'
  · rw [qualifiedName_entity_entry, hown hm] at hname
    exact absurd hname hne
  · rw [hown hm, hown hm'] at hname
    rw [hname, hd'] at hd
    obtain rfl := Option.some.inj hd
    obtain rfl := Option.some.inj (hk.symm.trans hk')
    exact Except.ok.inj (hm.symm.trans hm')

theorem MayDeclare.enum_unique {e e' : EnumDecl} (he : r.MayDeclare (.enum e))
    (he' : r.MayDeclare (.enum e')) (hname : e.qualifiedName = e'.qualifiedName) : e = e' := by
  have hsome := (resolve_eq_enum_iff.1 he).2
  rw [hname, (resolve_eq_enum_iff.1 he').2] at hsome
  exact (Option.some.inj hsome).symm

/-- Two entities of a schema that share namespace and name are one. -/
theorem MayDeclare.eq_of_key (hbuilt : r.Built) {e e' : SchemaEntity} (he : r.MayDeclare e)
    (he' : r.MayDeclare e') (hkey : e.key = e'.key) : e = e' := by
  have hname := SchemaEntity.qualifiedName_eq_of_key_eq hkey
  cases e with
  | model m =>
    cases e' with
    | model m' => rw [he.model_unique he' hname]
    | enum e' => exact absurd hname (he.enum_ne_model hbuilt he')
  | enum e =>
    cases e' with
    | model m' => exact absurd hname.symm (he'.enum_ne_model hbuilt he)
    | enum e' => rw [he.enum_unique he' hname]

theorem MayDeclare.of_targetEntity? (hbuilt : r.Built) {owner : String} {f : Field}
    {s : SchemaField} (h : r.schemaField owner f = .ok s) {e : SchemaEntity}
    (he : r.targetEntity? s = some e) : r.MayDeclare e := by
  cases e with
  | model m => exact .inl ((targetEntity?_eq_model_iff hbuilt h).1 he).1
  | enum e =>
    obtain ⟨name, -, hname⟩ := (targetEntity?_eq_enum_iff h).1 he
    change r.resolve e.qualifiedName = .enum e
    rwa [qualifiedName_of_enum? (resolve_eq_enum_iff.1 hname).2]

/-! The walk over the types. -/

theorem mem_insertEntity_iff (hbuilt : r.Built) (hall : ∀ e ∈ entities, r.MayDeclare e)
    {e e' : SchemaEntity} (he : r.MayDeclare e) :
    e' ∈ insertEntity entities e ↔ e' ∈ entities ∨ e' = e := by
  unfold insertEntity
  split
  · rename_i hmem
    obtain ⟨found, hfound, hkey⟩ := List.mem_map.1 hmem
    obtain rfl := (hall found hfound).eq_of_key hbuilt he hkey
    refine ⟨.inl, ?_⟩
    rintro (h | rfl)
    · exact h
    · exact hfound
  · simp

/-- Declaring entities keeps what there is, and adds those that are missing. -/
theorem foldl_insertEntity (hbuilt : r.Built) (hall : ∀ e ∈ entities, r.MayDeclare e)
    (hnodup : (entities.map SchemaEntity.key).Nodup) {added : List SchemaEntity}
    (hadded : ∀ e ∈ added, r.MayDeclare e) :
    ((added.foldl insertEntity entities).map SchemaEntity.key).Nodup ∧
      ∀ e, e ∈ added.foldl insertEntity entities ↔ e ∈ entities ∨ e ∈ added := by
  induction added generalizing entities with
  | nil => exact ⟨hnodup, by simp⟩
  | cons a added ih =>
    have ha := hadded a List.mem_cons_self
    have hmem (e : SchemaEntity) : e ∈ insertEntity entities a ↔ e ∈ entities ∨ e = a :=
      mem_insertEntity_iff hbuilt hall ha
    obtain ⟨hnodup', hrest⟩ := ih
      (fun e (he : e ∈ insertEntity entities a) =>
        ((hmem e).1 he).elim (hall e) fun h => h ▸ ha)
      (nodup_insertEntity hnodup a) fun e he => hadded e (List.mem_cons_of_mem _ he)
    refine ⟨hnodup', fun e => ?_⟩
    rw [List.foldl_cons, hrest, hmem, List.mem_cons, or_assoc]

/-- What holds of an empty part and is kept when an entity of its namespace is added, holds of every
part. The models that are added are the map entry concept and those of reflected types. -/
theorem forall_mem_reflect {P : Part → Prop} (hempty : ∀ ns, P (.empty ns)) {excluded : List String}
    (henum : ∀ p e, p.ns = e.ns → P p → P (p.addEnum e))
    (hmodel : ∀ p m, p.ns = m.ns →
      (m = .entry ∨ ∃ t ∈ r.reflectedTypes excluded, r.model t.1 t.2 = .ok m) →
        P p → P (p.addModel m))
    (h : r.reflect excluded = .ok parts) : ∀ p ∈ parts, P p := by
  have htarget (parts : List Part) (f : SchemaField) (hparts : ∀ p ∈ parts, P p) :
      ∀ p ∈ r.declareTarget parts f, P p := by
    unfold declareTarget
    split
    · split
      · exact forall_updatePart (hempty _) (fun p => henum p _) hparts
      · exact hparts
    · split
      · unfold declareEntry
        split
        · exact hparts
        · exact forall_updatePart (hempty _) (fun p hp => hmodel p _ hp (.inl rfl)) hparts
      · exact hparts
    · exact hparts
  have htargets (fields : List SchemaField) (parts : List Part) (hparts : ∀ p ∈ parts, P p) :
      ∀ p ∈ fields.foldl r.declareTarget parts, P p := by
    induction fields generalizing parts with
    | nil => exact hparts
    | cons f fields ih => exact ih _ (htarget parts f hparts)
  refine foldlM_invariant (I := fun _ parts => ∀ p ∈ parts, P p) ?_ (by simp)
    (reflect_eq_ok_iff.1 h).2
  intro done t rest parts parts' hsplit hparts hstep
  have ht : t ∈ r.reflectedTypes excluded := hsplit ▸ List.mem_append_right _ List.mem_cons_self
  obtain ⟨m, hm, rfl⟩ := reflectType_eq_ok_iff.1 hstep
  refine forall_updatePart (hempty _) (fun p hp => hmodel p m ?_ (.inr ⟨t, ht, hm⟩))
    (htargets _ _ ?_)
  · rw [hp, (isModelOf_of_model hm).ns_eq]
  · exact forall_updatePart (hempty _) (fun p _ hp => hp) hparts

def ownModels (entities : List SchemaEntity) : List Model :=
  (entities.filterMap (·.model?)).filter (·.qualifiedName ≠ entryName)

theorem ownModels_append (l l' : List SchemaEntity) :
    ownModels (l ++ l') = ownModels l ++ ownModels l' := by
  simp [ownModels]

theorem mem_ownModels_iff {m : Model} :
    m ∈ ownModels entities ↔ .model m ∈ entities ∧ m.qualifiedName ≠ entryName := by
  simp [ownModels, SchemaEntity.model?_eq_some_iff]

theorem ownModels_foldl_insertEntity {added : List SchemaEntity}
    (hadded : ∀ e ∈ added, ownModels [e] = []) :
    ownModels (added.foldl insertEntity entities) = ownModels entities := by
  induction added generalizing entities with
  | nil => rfl
  | cons a added ih =>
    rw [List.foldl_cons, ih fun e he => hadded e (List.mem_cons_of_mem _ he), insertEntity]
    split
    · rfl
    · rw [ownModels_append, hadded a List.mem_cons_self, List.append_nil]

/-- The entities after a walk over types. -/
structure Reflected (r : Registry) (done : List (Kind × TypeDecl)) (entities : List SchemaEntity) :
    Prop where
  mayDeclare : ∀ e ∈ entities, r.MayDeclare e
  nodup : (entities.map SchemaEntity.key).Nodup
  models : List.Forall₂ (fun t m => r.model t.1 t.2 = .ok m) done (ownModels entities)
  entry : .model .entry ∈ entities ↔ ∃ t ∈ done, ∃ f ∈ t.2.markedFields, f.UsesEntry
  enums : ∀ e, .enum e ∈ entities ↔ ∃ t ∈ done, ∃ f ∈ t.2.markedFields, ∃ name,
    f.Mentions name ∧ r.resolve name = .enum e

theorem Reflected.nil : r.Reflected [] [] :=
  ⟨by simp, by simp, .nil, by simp, by simp⟩

theorem model_mem_targets_iff (hbuilt : r.Built) {k : Kind} {d : TypeDecl} {m m' : Model}
    (hm : r.model k d = .ok m) : .model m' ∈ m.fields.filterMap r.targetEntity? ↔
      m' = .entry ∧ ∃ f ∈ d.markedFields, f.UsesEntry := by
  rw [mem_targets_iff hm]
  constructor
  · rintro ⟨f, hf, s, hs, he⟩
    obtain ⟨rfl, huse⟩ := (targetEntity?_eq_model_iff hbuilt hs).1 he
    exact ⟨rfl, f, hf, huse⟩
  · rintro ⟨rfl, f, hf, huse⟩
    obtain ⟨s, hs⟩ := exists_schemaField_of_model hm hf
    exact ⟨f, hf, s, hs, (targetEntity?_eq_model_iff hbuilt hs).2 ⟨rfl, huse⟩⟩

theorem enum_mem_targets_iff {k : Kind} {d : TypeDecl} {m : Model} (hm : r.model k d = .ok m)
    {e : EnumDecl} : .enum e ∈ m.fields.filterMap r.targetEntity? ↔
      ∃ f ∈ d.markedFields, ∃ name, f.Mentions name ∧ r.resolve name = .enum e := by
  rw [mem_targets_iff hm]
  constructor
  · rintro ⟨f, hf, s, hs, he⟩
    exact ⟨f, hf, (targetEntity?_eq_enum_iff hs).1 he⟩
  · rintro ⟨f, hf, hname⟩
    obtain ⟨s, hs⟩ := exists_schemaField_of_model hm hf
    exact ⟨f, hf, s, hs, (targetEntity?_eq_enum_iff hs).2 hname⟩

/-- A type whose name is not taken adds its own model and what its fields refer to. -/
theorem Reflected.step (hbuilt : r.Built) {done : List (Kind × TypeDecl)}
    (h : r.Reflected done entities) {k : Kind} {d : TypeDecl} {m : Model}
    (hd : d ∈ r.types) (hk : d.kind = some k) (hne : d.qualifiedName ≠ entryName)
    (hfresh : ∀ t ∈ done, t.2.qualifiedName ≠ d.qualifiedName) (hm : r.model k d = .ok m) :
    r.Reflected (done ++ [(k, d)]) (r.declareTargets entities m.fields ++ [.model m]) := by
  have hname : m.qualifiedName = d.qualifiedName := (isModelOf_of_model hm).qualifiedName
  have hself : r.MayDeclare (.model m) := .inr ⟨k, d, type?_qualifiedName.2 hd, hk, hne, hm⟩
  have hentry : m ≠ .entry := by
    rintro rfl
    exact hne (hname.symm.trans (by decide))
  have htarget (e : SchemaEntity) (he : e ∈ m.fields.filterMap r.targetEntity?) :
      r.MayDeclare e := by
    obtain ⟨f, -, s, hs, he⟩ := (mem_targets_iff hm e).1 he
    exact .of_targetEntity? hbuilt hs he
  obtain ⟨hnodup, hmem⟩ := foldl_insertEntity hbuilt h.mayDeclare h.nodup htarget
  have hall (e : SchemaEntity) (he : e ∈ r.declareTargets entities m.fields) : r.MayDeclare e :=
    ((hmem e).1 he).elim (h.mayDeclare e) (htarget e)
  have hnew : .model m ∉ r.declareTargets entities m.fields := by
    intro hin
    rcases (hmem _).1 hin with hin | hin
    · have hown := mem_ownModels_iff.2 ⟨hin, by rwa [hname]⟩
      obtain ⟨t, ht, htm⟩ := exists_mem_left h.models hown
      exact hfresh t ht ((isModelOf_of_model htm).qualifiedName.symm.trans hname)
    · exact hentry ((model_mem_targets_iff hbuilt hm).1 hin).1
  refine ⟨fun e he => ?_, ?_, ?_, ?_, fun e => ?_⟩
  · rcases List.mem_append.1 he with he | he
    · exact hall e he
    · rwa [List.mem_singleton.1 he]
  · rw [List.map_append, List.map_singleton]
    refine List.nodup_append_comm.1 (List.nodup_cons.2 ⟨fun hkey => hnew ?_, hnodup⟩)
    obtain ⟨e, he, hkey⟩ := List.mem_map.1 hkey
    rwa [← (hall e he).eq_of_key hbuilt hself hkey]
  · have hkeep : ownModels (r.declareTargets entities m.fields) = ownModels entities := by
      refine ownModels_foldl_insertEntity fun e he => ?_
      cases e with
      | enum e => rfl
      | model m' =>
        rw [((model_mem_targets_iff hbuilt hm).1 he).1]
        decide
    have hone : ownModels [.model m] = [m] := by
      simp [ownModels, SchemaEntity.model?, hname, hne]
    rw [ownModels_append, hkeep, hone]
    exact List.rel_append h.models (.cons hm .nil)
  · rw [List.mem_append, List.mem_singleton, SchemaEntity.model.injEq, or_iff_left hentry.symm,
      declareTargets, hmem, h.entry, model_mem_targets_iff hbuilt hm]
    simp [or_and_right, exists_or]
  · rw [List.mem_append, List.mem_singleton, or_iff_left (by simp), declareTargets, hmem,
      h.enums, enum_mem_targets_iff hm]
    simp [or_and_right, exists_or]

theorem pairwise_reflectedTypes (r : Registry) (excluded : List String) :
    (r.reflectedTypes excluded).Pairwise fun t t' =>
      Kind.reflected.idxOf t.1 < Kind.reflected.idxOf t'.1 ∨
        t.1 = t'.1 ∧ r.types.idxOf t.2 < r.types.idxOf t'.2 := by
  have htypes : r.types.Pairwise fun d d' => r.types.idxOf d < r.types.idxOf d' := by
    have hnodup : r.types.Nodup := .of_map _ r.nodup_types
    refine List.pairwise_iff_getElem.2 fun i j hi hj hij => ?_
    rwa [hnodup.idxOf_getElem, hnodup.idxOf_getElem]
  rw [reflectedTypes, List.pairwise_flatMap]
  constructor
  · intro k _
    rw [List.pairwise_map]
    refine (htypes.sublist (List.filter_sublist.trans List.filter_sublist)).imp fun hlt => ?_
    exact .inr ⟨rfl, hlt⟩
  · have hkinds : Kind.reflected.Pairwise fun k k' =>
        Kind.reflected.idxOf k < Kind.reflected.idxOf k' := by decide
    refine hkinds.imp fun hlt t ht t' ht' => ?_
    obtain ⟨d, -, rfl⟩ := List.mem_map.1 ht
    obtain ⟨d', -, rfl⟩ := List.mem_map.1 ht'
    exact .inl hlt

theorem nodup_reflectedTypes (r : Registry) (excluded : List String) :
    ((r.reflectedTypes excluded).map (·.2.qualifiedName)).Nodup := by
  have hone (k : Kind) : ((((r.ofKind k).filter fun d =>
      !excluded.contains d.ns && d.qualifiedName ≠ entryName).map fun d => (k, d)).map
        (·.2.qualifiedName)).Nodup := by
    rw [List.map_map]
    exact r.nodup_types.sublist ((List.filter_sublist.trans List.filter_sublist).map _)
  rw [reflectedTypes, List.map_flatMap, List.nodup_flatMap]
  refine ⟨fun k _ => hone k, ?_⟩
  refine List.Pairwise.imp ?_ (by decide : Kind.reflected.Pairwise (· ≠ ·))
  intro k k' hk name hname hname'
  simp only [ofKind, List.mem_map, List.mem_filter, decide_eq_true_eq, Prod.exists,
    Prod.mk.injEq] at hname hname'
  obtain ⟨_, d, ⟨_, ⟨⟨hd, hdk⟩, -⟩, rfl, rfl⟩, rfl⟩ := hname
  obtain ⟨_, d', ⟨_, ⟨⟨hd', hdk'⟩, -⟩, rfl, rfl⟩, heq⟩ := hname'
  obtain rfl := eq_of_qualifiedName hd' hd heq
  exact hk (Option.some.inj (hdk.symm.trans hdk'))

/-- The parts of a schema hold the entities of the walk over the reflected types. -/
theorem exists_reflected (hbuilt : r.Built) {excluded : List String}
    (h : r.reflect excluded = .ok parts) :
    ∃ entities, PartsHold parts entities ∧ r.Reflected (r.reflectedTypes excluded) entities := by
  refine foldlM_invariant (I := fun done parts =>
    ∃ entities, PartsHold parts entities ∧ r.Reflected done entities) ?_
    ⟨[], .nil, .nil⟩ (reflect_eq_ok_iff.1 h).2
  rintro done ⟨k, d⟩ rest parts parts' hsplit ⟨entities, hparts, hdone⟩ hstep
  obtain ⟨m, hm, hparts'⟩ := partsHold_reflectType hparts hstep
  obtain ⟨hd, hk, -, -, hne⟩ := mem_reflectedTypes_iff.1
    (hsplit ▸ List.mem_append_right done List.mem_cons_self)
  refine ⟨_, hparts', hdone.step hbuilt hd hk hne (fun t ht heq => ?_) hm⟩
  have hnodup := r.nodup_reflectedTypes excluded
  rw [hsplit, List.map_append, List.nodup_append] at hnodup
  exact hnodup.2.2 _ (List.mem_map_of_mem ht) _ List.mem_cons_self heq

theorem ownModels_filter_ns (entities : List SchemaEntity) (ns : String) :
    ownModels (entities.filter (·.ns = ns)) = (ownModels entities).filter (·.ns = ns) := by
  induction entities with
  | nil => rfl
  | cons e entities ih =>
    have hsplit : ownModels (e :: entities) = ownModels [e] ++ ownModels entities :=
      ownModels_append [e] entities
    rw [hsplit, List.filter_append, ← ih]
    by_cases hns : e.ns = ns
    · rw [List.filter_cons_of_pos (by simpa using hns)]
      have hone : (ownModels [e]).filter (·.ns = ns) = ownModels [e] := by
        refine List.filter_eq_self.2 fun m hm => ?_
        obtain rfl : .model m = e := by simpa using (mem_ownModels_iff.1 hm).1
        simpa [SchemaEntity.ns] using hns
      rw [hone]
      exact ownModels_append [e] _
    · rw [List.filter_cons_of_neg (by simpa using hns)]
      have hnone : (ownModels [e]).filter (·.ns = ns) = [] := by
        refine List.filter_eq_nil_iff.2 fun m hm => ?_
        obtain rfl : .model m = e := by simpa using (mem_ownModels_iff.1 hm).1
        simpa [SchemaEntity.ns] using hns
      rw [hnone, List.nil_append]

theorem Reflected.perm_models {done : List (Kind × TypeDecl)} (h : r.Reflected done entities) :
    ∃ entries : List Model,
      ((∃ t ∈ done, ∃ f ∈ t.2.markedFields, f.UsesEntry) ∧ entries = [.entry] ∨
        (¬ ∃ t ∈ done, ∃ f ∈ t.2.markedFields, f.UsesEntry) ∧ entries = []) ∧
      (entities.filterMap (·.model?)).Perm (ownModels entities ++ entries) := by
  have hnodup : (entities.filterMap (·.model?)).Nodup := by
    refine (List.Nodup.of_map _ h.nodup).filterMap fun e e' m hm hm' => ?_
    rw [SchemaEntity.model?_eq_some_iff.1 hm, SchemaEntity.model?_eq_some_iff.1 hm']
  have hrest (m : Model) :
      m ∈ (entities.filterMap (·.model?)).filter (fun m => !decide (m.qualifiedName ≠ entryName)) ↔
        m = .entry ∧ ∃ t ∈ done, ∃ f ∈ t.2.markedFields, f.UsesEntry := by
    rw [List.mem_filter, SchemaEntity.mem_filterMap_model?_iff, ← h.entry]
    simp only [decide_not, Bool.not_not, decide_eq_true_eq]
    constructor
    · rintro ⟨hm, hname⟩
      rcases h.mayDeclare _ hm with rfl | ⟨k, d, -, -, hne, hmodel⟩
      · exact ⟨rfl, hm⟩
      · exact absurd ((isModelOf_of_model hmodel).qualifiedName.symm.trans hname) hne
    · rintro ⟨rfl, hm⟩
      exact ⟨hm, by decide⟩
  refine ⟨_, ?_, (List.filter_append_perm (fun m : Model => m.qualifiedName ≠ entryName) _).symm⟩
  by_cases hused : ∃ t ∈ done, ∃ f ∈ t.2.markedFields, f.UsesEntry
  · refine .inl ⟨hused, List.perm_singleton.1 ?_⟩
    refine (List.perm_ext_iff_of_nodup (hnodup.filter _) (List.nodup_singleton _)).2 fun m => ?_
    rw [hrest, List.mem_singleton, and_iff_left hused]
  · refine .inr ⟨hused, List.eq_nil_iff_forall_not_mem.2 fun m hm => ?_⟩
    exact hused ((hrest m).1 hm).2

/-- The schema of a registry that was built from the standard one. Every namespace has one part, and
an entity lies in the part of its namespace under a name that no other entity of the part has. There
is one model for every type of a reflected kind outside of the excluded namespaces, and one map
entry concept if it is used. A part lists its models in the order of their kinds, and those of one
kind in the order of registration. There is one enumeration for every one that a marked field refers
to. -/
theorem reflect_schema (hbuilt : r.Built) {excluded : List String}
    (h : r.reflect excluded = .ok parts) :
    (parts.map (·.ns)).Nodup ∧
      (∀ p ∈ parts, (∀ e ∈ p.entities, e.ns = p.ns) ∧ (p.entities.map (·.name)).Nodup) ∧
      (r.reflectedTypes excluded).Nodup ∧
      (∀ k d, (k, d) ∈ r.reflectedTypes excluded ↔ d ∈ r.types ∧ d.kind = some k ∧
        k.isReflected = true ∧ d.ns ∉ excluded ∧ d.qualifiedName ≠ entryName) ∧
      ((r.reflectedTypes excluded).Pairwise fun t t' =>
        Kind.reflected.idxOf t.1 < Kind.reflected.idxOf t'.1 ∨
          t.1 = t'.1 ∧ r.types.idxOf t.2 < r.types.idxOf t'.2) ∧
      (∃ models entries,
        List.Forall₂ (fun t m => r.IsModelOf t.1 t.2 m) (r.reflectedTypes excluded) models ∧
        ((∃ t ∈ r.reflectedTypes excluded, ∃ f ∈ t.2.markedFields, f.UsesEntry) ∧
            entries = [.entry] ∨
          (¬ ∃ t ∈ r.reflectedTypes excluded, ∃ f ∈ t.2.markedFields, f.UsesEntry) ∧
            entries = []) ∧
        (parts.flatMap (·.models)).Perm (models ++ entries) ∧
        ∀ p ∈ parts, p.models.filter (·.qualifiedName ≠ entryName) =
          models.filter (·.ns = p.ns)) ∧
      (parts.flatMap (·.enums)).Nodup ∧
      ∀ e, e ∈ parts.flatMap (·.enums) ↔ ∃ t ∈ r.reflectedTypes excluded,
        ∃ f ∈ t.2.markedFields, ∃ name, f.Mentions name ∧ r.type? name = none ∧
          r.enum? name = some e := by
  obtain ⟨entities, hparts, hreflected⟩ := exists_reflected hbuilt h
  have hnodup : entities.Nodup := .of_map _ hreflected.nodup
  have hflat {β : Type} (get? : SchemaEntity → Option β) :
      (parts.flatMap fun p => p.entities.filterMap get?).Perm (entities.filterMap get?) := by
    have := (hparts.perm hnodup).filterMap get?
    rwa [List.filterMap_flatMap] at this
  obtain ⟨entries, hentries, hperm⟩ := hreflected.perm_models
  refine ⟨hparts.nodup, fun p hp => ⟨fun e => hparts.ns_eq hp,
    hparts.nodup_names hreflected.nodup hp⟩, .of_map _ (r.nodup_reflectedTypes excluded),
    fun k d => mem_reflectedTypes_iff, r.pairwise_reflectedTypes excluded, ?_, ?_, fun e => ?_⟩
  · refine ⟨ownModels entities, entries, hreflected.models.imp fun _ _ => isModelOf_of_model,
      hentries, (hflat _).trans hperm, fun p hp => ?_⟩
    rw [← ownModels_filter_ns, ← hparts.entities_eq p hp]
    rfl
  · refine (hflat (·.enum?)).nodup_iff.2 (hnodup.filterMap fun e e' a ha ha' => ?_)
    rw [SchemaEntity.enum?_eq_some_iff.1 ha, SchemaEntity.enum?_eq_some_iff.1 ha']
  · have hmem : e ∈ entities.filterMap (·.enum?) ↔ .enum e ∈ entities := by
      simp [SchemaEntity.enum?_eq_some_iff]
    simp only [← resolve_eq_enum_iff]
    rw [← hreflected.enums, ← hmem]
    exact (hflat (·.enum?)).mem_iff

/-! A registry to look at: cars have the key of vehicles, belong to a person, and carry notes and a
colour. -/

namespace Garage

def person : TypeDecl where
  ns := "org.acme"
  name := "Person"
  kind := some .participant
  fields := [{ Field.data "id" (.primitive .string) with primary := true }]

def vehicle : TypeDecl where
  ns := "org.acme"
  name := "Vehicle"
  kind := some .asset
  fields := [{ Field.data "vin" (.primitive .string) with primary := true }]

def owner : Field := .pointer "owner" (.named "org.acme.Person")

def car : TypeDecl where
  ns := "org.acme"
  name := "Car"
  kind := some .asset
  parent := some "org.acme.Vehicle"
  fields := [.data "notes" .map, .data "colour" (.named "org.acme.Colour"), owner]

end Garage

def garage : Registry :=
  (((standard.register Garage.person).register Garage.vehicle).register Garage.car).registerEnum
    ⟨"org.acme", "Colour", ["RED", "BLUE"]⟩

theorem built_garage : garage.Built :=
  .registerEnum (.register (.register (.register .standard _) _) _) _

theorem not_onCycle_garage (name : String) : ¬ garage.OnCycle name :=
  not_onCycle_of_rank (fun n => if n = "org.acme.Car" then 1 else 0) (by decide) name

theorem ancestors_person_garage : garage.ancestors "org.acme.Person" = [Garage.person] :=
  ancestors_of_root rfl rfl

theorem primaryField_person_garage : garage.primaryField? "org.acme.Person" =
    some { Field.data "id" (.primitive .string) with primary := true } :=
  primaryField?_of_root (d := Garage.person) rfl rfl

theorem ancestors_car_garage :
    garage.ancestors "org.acme.Car" = [Garage.car, Garage.vehicle] := by
  have hvehicle : garage.ancestors "org.acme.Vehicle" = [Garage.vehicle] :=
    ancestors_of_root rfl rfl
  rw [ancestors_of_parent (d := Garage.car) rfl rfl (not_onCycle_garage _), hvehicle]

theorem markedFields_car_garage :
    garage.markedFields "org.acme.Car" = Garage.car.fields ++ Garage.vehicle.fields := by
  rw [markedFields, declaredFields, ancestors_car_garage]
  decide

theorem primaryField_car_garage : garage.primaryField? "org.acme.Car" =
    some { Field.data "vin" (.primitive .string) with primary := true } := by
  rw [primaryField?, declaredFields, ancestors_car_garage]
  rfl

theorem isAssignable_car_garage : garage.isAssignable "org.acme.Vehicle" "org.acme.Car" = true := by
  rw [isAssignable, ancestors_car_garage]
  decide

theorem exists_reflect_garage : ∃ parts, garage.reflect [] = .ok parts ∧ parts.length = 2 ∧
    ((parts.flatMap (·.models)).map (·.name)).Nodup :=
  ⟨_, reflect_eq_ok_iff.2 ⟨not_onCycle_garage, rfl⟩, by decide, by decide⟩

theorem reflect_schema_garage : garage.Built ∧ ∃ parts, garage.reflect [] = .ok parts ∧
    (parts.map (·.ns)).Nodup ∧
    (∀ p ∈ parts, (∀ e ∈ p.entities, e.ns = p.ns) ∧ (p.entities.map (·.name)).Nodup) ∧
    garage.reflectedTypes [] = [(.asset, Garage.vehicle), (.asset, Garage.car),
      (.participant, Garage.person)] ∧
    (∃ vehicle car person, garage.IsModelOf .asset Garage.vehicle vehicle ∧
      garage.IsModelOf .asset Garage.car car ∧ garage.IsModelOf .participant Garage.person person ∧
      (parts.flatMap (·.models)).Perm [vehicle, car, person, .entry] ∧
      ∀ p ∈ parts, p.models.filter (·.qualifiedName ≠ entryName) =
        [vehicle, car, person].filter (·.ns = p.ns)) ∧
    (parts.flatMap (·.enums)).Nodup ∧
    ⟨"org.acme", "Colour", ["RED", "BLUE"]⟩ ∈ parts.flatMap (·.enums) := by
  obtain ⟨parts, hparts, -, -⟩ := exists_reflect_garage
  obtain ⟨hns, hentities, -, -, -, ⟨models, entries, hmodels, hentries, hperm, hfilter⟩, hnodup,
    henums⟩ := reflect_schema built_garage hparts
  have htypes : garage.reflectedTypes [] = [(.asset, Garage.vehicle), (.asset, Garage.car),
      (.participant, Garage.person)] := by decide
  have hcar : (.asset, Garage.car) ∈ garage.reflectedTypes [] := by decide
  rw [htypes] at hmodels
  obtain _ | ⟨hvehicle, _ | ⟨hcarm, _ | ⟨hperson, _ | _⟩⟩⟩ := hmodels
  obtain rfl : entries = [.entry] := by
    rcases hentries with ⟨-, h⟩ | ⟨hunused, -⟩
    · exact h
    · exact absurd ⟨_, hcar, .data "notes" .map, by decide, .inl rfl⟩ hunused
  refine ⟨built_garage, parts, hparts, hns, hentities, htypes,
    ⟨_, _, _, hvehicle, hcarm, hperson, hperm, hfilter⟩, hnodup, (henums _).2 ?_⟩
  exact ⟨_, hcar, .data "colour" (.named "org.acme.Colour"), by decide, "org.acme.Colour", .inl rfl,
    rfl, rfl⟩

end Registry

end LedgerSchema
