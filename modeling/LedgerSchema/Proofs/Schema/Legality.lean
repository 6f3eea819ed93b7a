import Mathlib
import LedgerSchema.Proofs.Registry.Cycles
import LedgerSchema.Proofs.Schema.Model
import LedgerSchema.Schema.Reflection

/-!
Which registries have a schema: those without cycles of parents in which every type of a reflected
kind, outside of the excluded namespaces, is legal.
-/

set_option autoImplicit false

namespace LedgerSchema

namespace Registry

variable {r : Registry}

/-- A name that a field may refer to: a type of a reflected kind, or an enumeration that no type
hides. -/
def LegalName (r : Registry) (name : String) : Prop :=
  (∃ d k, r.type? name = some d ∧ d.kind = some k ∧ k.isReflected = true) ∨
    r.type? name = none ∧ ∃ e, r.enum? name = some e

/-- Types that stand alone, below one level of array, or as elements of a collection. -/
def LegalItem (r : Registry) : FieldType → Prop
  | .primitive _ => True
  | .named name => r.LegalName name
  | _ => False

def LegalFieldType (r : Registry) (element : Option FieldType) : FieldType → Prop
  | .primitive _ | .map => True
  | .named name => r.LegalName name
  | .array component => r.LegalItem component
  | .collection _ => ∃ t, element = some t ∧ r.LegalItem t

structure LegalType (r : Registry) (k : Kind) (d : TypeDecl) : Prop where
  parent : ∀ name, d.parent = some name → ∃ p, r.type? name = some p ∧ p.kind = some k
  fields : ∀ f ∈ d.markedFields, r.LegalFieldType f.element f.type
  atMostOneKey : (d.fields.filter (·.isPrimary)).length ≤ 1
  transaction : k = .transaction → (∀ f ∈ d.fields, f.isPrimary = false) ∧
    ∀ f ∈ d.markedFields, f.name ≠ transactionIdField
  identified : k = .asset ∨ k = .participant →
    (∃ f ∈ d.fields, f.isPrimary = true) ∨ d.parent ≠ none

theorem exists_target_iff (field : String) {name : String} :
    (∃ t, r.target field name = .ok t) ↔ r.LegalName name := by
  unfold target resolve LegalName
  cases htype : r.type? name with
  | some d =>
    cases hkind : d.kind with
    | none => simp [hkind]
    | some k => cases hreflected : k.isReflected <;> simp [hkind, hreflected]
  | none => cases r.enum? name <;> simp

theorem exists_map_target_iff {field name : String}
    {shape : FieldTarget → String × Option FieldTarget} :
    (∃ s, (r.target field name).map shape = .ok s) ↔ r.LegalName name := by
  rw [← exists_target_iff field]
  constructor
  · rintro ⟨s, hs⟩
    obtain ⟨t, ht, -⟩ := map_eq_ok_iff.1 hs
    exact ⟨t, ht⟩
  · rintro ⟨t, ht⟩
    exact ⟨shape t, map_eq_ok_iff.2 ⟨t, ht, rfl⟩⟩

/-- A field type can be written exactly if it is legal. -/
theorem exists_fieldShape_iff (field : String) {type : FieldType} {element : Option FieldType} :
    (∃ shape, r.fieldShape field type element = .ok shape) ↔ r.LegalFieldType element type := by
  cases type with
  | primitive p => simp [fieldShape, LegalFieldType]
  | map => simp [fieldShape, LegalFieldType]
  | named name => exact exists_map_target_iff
  | array component =>
    cases component with
    | primitive p => simp [fieldShape, LegalFieldType, LegalItem]
    | named name => exact exists_map_target_iff
    | _ => simp [fieldShape, LegalFieldType, LegalItem]
  | collection kind =>
    cases element with
    | none => simp [fieldShape, LegalFieldType]
    | some t =>
      cases t with
      | primitive p => simp [fieldShape, LegalFieldType, LegalItem]
      | named name =>
        have hlegal : r.LegalFieldType (some (.named name)) (.collection kind) ↔
            r.LegalName name := by simp [LegalFieldType, LegalItem]
        rw [hlegal]
        exact exists_map_target_iff
      | _ => simp [fieldShape, LegalFieldType, LegalItem]

theorem exists_schemaField_iff {owner : String} {f : Field} :
    (∃ s, r.schemaField owner f = .ok s) ↔ r.LegalFieldType f.element f.type := by
  rw [← exists_fieldShape_iff s!"{owner}.{f.name}"]
  constructor
  · rintro ⟨s, hs⟩
    obtain ⟨shape, hshape, -⟩ := schemaField_eq_ok_iff.1 hs
    exact ⟨shape, hshape⟩
  · rintro ⟨shape, hshape⟩
    exact ⟨_, schemaField_eq_ok_iff.2 ⟨shape, hshape, rfl⟩⟩

theorem exists_modelParent_iff {d : TypeDecl} {kind : Kind} :
    (∃ parent, r.modelParent d kind = .ok parent) ↔
      ∀ name, d.parent = some name → ∃ p, r.type? name = some p ∧ p.kind = some kind := by
  simp only [modelParent_eq_ok_iff]
  cases d.parent with
  | none => simp
  | some name => simp

theorem mem_markedFields_of_isPrimary {d : TypeDecl} {f : Field} (hf : f ∈ d.fields)
    (hprimary : f.isPrimary = true) : f ∈ d.markedFields :=
  List.mem_filter.2 ⟨hf, Field.isMarked_of_isPrimary hprimary⟩

/-- The primary fields are among the marked ones. -/
theorem keyRules_iff {kind : Kind} {d : TypeDecl} : KeyRules kind d ↔
    (kind = .transaction → (∀ f ∈ d.fields, f.isPrimary = false) ∧
      ∀ f ∈ d.markedFields, f.name ≠ transactionIdField) ∧
    (d.fields.filter (·.isPrimary)).length ≤ 1 ∧
    (kind = .asset ∨ kind = .participant →
      (∃ f ∈ d.fields, f.isPrimary = true) ∨ d.parent ≠ none) := by
  have hnone : (∀ f ∈ d.markedFields, f.isPrimary = false) ↔
      ∀ f ∈ d.fields, f.isPrimary = false := by
    refine ⟨fun h f hf => Bool.eq_false_iff.2 fun hprimary => ?_,
      fun h f hf => h f (List.mem_of_mem_filter hf)⟩
    simp [h f (mem_markedFields_of_isPrimary hf hprimary)] at hprimary
  have hsome : (∃ f ∈ d.markedFields, f.isPrimary = true) ↔ ∃ f ∈ d.fields, f.isPrimary = true :=
    ⟨fun ⟨f, hf, hprimary⟩ => ⟨f, List.mem_of_mem_filter hf, hprimary⟩,
      fun ⟨f, hf, hprimary⟩ => ⟨f, mem_markedFields_of_isPrimary hf hprimary, hprimary⟩⟩
  have hcount : d.markedFields.countP (·.isPrimary) = (d.fields.filter (·.isPrimary)).length := by
    rw [TypeDecl.markedFields, List.countP_filter, ← List.countP_eq_length_filter]
    refine List.countP_congr fun f _ => ?_
    simpa using Field.isMarked_of_isPrimary
  rw [← hnone, ← hsome, ← hcount]
  constructor
  · rintro ⟨htransaction, hone, hkey⟩
    exact ⟨fun h => ⟨fun f hf => (htransaction h f hf).1, fun f hf => (htransaction h f hf).2⟩,
      hone, hkey⟩
  · rintro ⟨htransaction, hone, hkey⟩
    exact ⟨fun h f hf => ⟨(htransaction h).1 f hf, (htransaction h).2 f hf⟩, hone, hkey⟩

theorem exists_model_iff_legalType {kind : Kind} {d : TypeDecl} :
    (∃ m, r.model kind d = .ok m) ↔ r.LegalType kind d := by
  have hfields : (∀ f ∈ d.markedFields, ∃ s, r.schemaField d.qualifiedName f = .ok s) ↔
      ∀ f ∈ d.markedFields, r.LegalFieldType f.element f.type :=
    forall₂_congr fun f _ => exists_schemaField_iff
  rw [exists_model_iff, exists_modelParent_iff, hfields, keyRules_iff]
  constructor
  · rintro ⟨hparent, hfields, htransaction, hone, hkey⟩
    exact ⟨hparent, hfields, hone, htransaction, hkey⟩
  · rintro ⟨hparent, hfields, hone, htransaction, hkey⟩
    exact ⟨hparent, hfields, htransaction, hone, hkey⟩

theorem reflectType_eq_ok_iff {parts parts' : List Part} {kind : Kind} {d : TypeDecl} :
    r.reflectType parts kind d = .ok parts' ↔ ∃ m, r.model kind d = .ok m ∧
      updatePart d.ns (·.addModel m)
        (m.fields.foldl r.declareTarget (updatePart d.ns id parts)) = parts' := by
  unfold reflectType
  rw [bind_eq_ok_iff]
  simp [pure, Except.pure]

theorem mem_reflectedTypes_iff {excluded : List String} {k : Kind} {d : TypeDecl} :
    (k, d) ∈ r.reflectedTypes excluded ↔ d ∈ r.types ∧ d.kind = some k ∧ k.isReflected = true ∧
      d.ns ∉ excluded ∧ d.qualifiedName ≠ entryName := by
  simp only [reflectedTypes, ofKind, Kind.isReflected, List.mem_flatMap, List.mem_map,
    List.mem_filter, Prod.mk.injEq, decide_eq_true_eq, Bool.and_eq_true, Bool.not_eq_true',
    List.contains_eq_mem, decide_eq_false_iff_not]
  constructor
  · rintro ⟨kind, hkind, d', ⟨⟨hd, hk⟩, hns, hname⟩, rfl, rfl⟩
    exact ⟨hd, hk, hkind, hns, hname⟩
  · rintro ⟨hd, hk, hkind, hns, hname⟩
    exact ⟨k, hkind, d, ⟨⟨hd, hk⟩, hns, hname⟩, rfl, rfl⟩

theorem checkCycles_eq_ok_iff : r.checkCycles = .ok () ↔ ∀ name, ¬ r.OnCycle name := by
  rw [← cycles_eq_nil_iff, checkCycles]
  cases r.cycles with
  | nil => simp
  | cons path rest => simp

theorem reflect_eq_ok_iff {excluded : List String} {parts : List Part} :
    r.reflect excluded = .ok parts ↔ (∀ name, ¬ r.OnCycle name) ∧
      (r.reflectedTypes excluded).foldlM (fun parts t => r.reflectType parts t.1 t.2) [] =
        .ok parts := by
  unfold reflect
  rw [bind_eq_ok_iff, ← checkCycles_eq_ok_iff]
  exact ⟨fun ⟨⟨⟩, hcycles, hrun⟩ => ⟨hcycles, hrun⟩, fun ⟨hcycles, hrun⟩ => ⟨(), hcycles, hrun⟩⟩

theorem exists_model_of_reflect {excluded : List String} {parts : List Part}
    (h : r.reflect excluded = .ok parts) {k : Kind} {d : TypeDecl}
    (hd : (k, d) ∈ r.reflectedTypes excluded) : ∃ m, r.model k d = .ok m := by
  refine (exists_foldlM_eq_ok_iff (P := fun t => ∃ m, r.model t.1 t.2 = .ok m) ?_).1
    ⟨parts, (reflect_eq_ok_iff.1 h).2⟩ (k, d) hd
  intro parts t
  simp [reflectType_eq_ok_iff]

/-- There is a schema exactly if there are no cycles and every reflected type has a model. -/
theorem exists_reflect_iff {excluded : List String} : (∃ parts, r.reflect excluded = .ok parts) ↔
    (∀ name, ¬ r.OnCycle name) ∧ ∀ t ∈ r.reflectedTypes excluded, ∃ m, r.model t.1 t.2 = .ok m := by
  simp only [reflect_eq_ok_iff, exists_and_left]
  refine and_congr_right fun _ => exists_foldlM_eq_ok_iff fun parts t => ?_
  simp [reflectType_eq_ok_iff]

/-- A registry is accepted exactly if no type is on a cycle of parent links and every type that is
reflected is legal. -/
theorem reflect_accepts_iff (r : Registry) (excluded : List String) :
    (∃ parts, r.reflect excluded = .ok parts) ↔
      (∀ d ∈ r.types, ¬ r.OnCycle d.qualifiedName) ∧
      ∀ d ∈ r.types, ∀ k, d.kind = some k → k.isReflected = true → d.ns ∉ excluded →
        d.qualifiedName ≠ entryName → r.LegalType k d := by
  have hcycles : (∀ name, ¬ r.OnCycle name) ↔ ∀ d ∈ r.types, ¬ r.OnCycle d.qualifiedName := by
    refine ⟨fun h d _ => h _, fun h name hname => ?_⟩
    obtain ⟨d, hd⟩ := Option.ne_none_iff_exists'.1 hname.type?_ne_none
    exact h d (mem_of_type? hd) (by rwa [qualifiedName_of_type? hd])
  have hrun : (∃ parts, (r.reflectedTypes excluded).foldlM
      (fun parts t => r.reflectType parts t.1 t.2) [] = .ok parts) ↔
        ∀ t ∈ r.reflectedTypes excluded, r.LegalType t.1 t.2 := by
    refine exists_foldlM_eq_ok_iff fun parts t => ?_
    rw [← exists_model_iff_legalType]
    simp [reflectType_eq_ok_iff]
  simp only [reflect_eq_ok_iff, exists_and_left, hcycles, hrun, Prod.forall, mem_reflectedTypes_iff]
  refine and_congr_right fun _ => ⟨fun h d hd k hk hr hns hname => h k d ⟨hd, hk, hr, hns, hname⟩,
    fun h k d hd => h d hd.1 k hd.2.1 hd.2.2.1 hd.2.2.2.1 hd.2.2.2.2⟩

end Registry

end LedgerSchema
