import Mathlib
import LedgerSchema.Proofs.Registry.Registration
import LedgerSchema.Proofs.Schema.Legality

/-!
What schema fields refer to: the map entry concept for maps, and else the type or the enumeration
that the declared field mentions.
-/

set_option autoImplicit false

namespace LedgerSchema

namespace Field

/-- The name in the type of the field, below an array or as the element of a collection. -/
def Mentions (f : Field) (name : String) : Prop :=
  f.type = .named name ∨ f.type = .array (.named name) ∨
    ∃ kind, f.type = .collection kind ∧ f.element = some (.named name)

/-- The map entry concept if the field is a map, and else what it mentions. -/
def RefersTo (f : Field) (name : String) : Prop :=
  f.type = .map ∧ name = entryName ∨ f.Mentions name

def UsesEntry (f : Field) : Prop := f.type = .map ∨ f.Mentions entryName

theorem refersTo_entryName_iff {f : Field} : f.RefersTo entryName ↔ f.UsesEntry := by
  simp [RefersTo, UsesEntry]

end Field

namespace Registry

variable {r : Registry}

theorem target_eq_ok_iff {field name : String} {t : FieldTarget} :
    r.target field name = .ok t ↔ t.name = name ∧
      ((∃ e, r.resolve name = .enum e) ∧ t.role = .enum ∨
        ∃ d k, r.resolve name = .type d ∧ d.kind = some k ∧ k.isReflected = true ∧
          t.role = .type k) := by
  obtain ⟨tname, role⟩ := t
  unfold target
  cases hresolve : r.resolve name with
  | unknown => simp
  | enum e =>
    simp only [Except.ok.injEq, FieldTarget.mk.injEq, Resolution.enum.injEq, reduceCtorEq,
      false_and, exists_false, or_false, exists_eq', true_and, eq_comm (a := name),
      eq_comm (a := TargetRole.enum)]
  | type d =>
    cases hkind : d.kind with
    | none => simp [hkind]
    | some k =>
      cases hreflected : k.isReflected with
      | false => simp [hkind, hreflected]
      | true => simp [hkind, hreflected, eq_comm (a := name), eq_comm (a := TargetRole.type k)]

inductive Shaped (r : Registry) (field : String) :
    FieldType → Option FieldType → String × Option FieldTarget → Prop
  | primitive (p : Primitive) (element : Option FieldType) :
      Shaped r field (.primitive p) element (p.label, none)
  | named {name : String} {t : FieldTarget} (h : r.target field name = .ok t)
      (element : Option FieldType) : Shaped r field (.named name) element (simpleName name, some t)
  | map (element : Option FieldType) :
      Shaped r field .map element (arrayLabel (simpleName entryName), some .entry)
  | primitiveArray (p : Primitive) (element : Option FieldType) :
      Shaped r field (.array (.primitive p)) element (arrayLabel p.label, none)
  | namedArray {name : String} {t : FieldTarget} (h : r.target field name = .ok t)
      (element : Option FieldType) :
      Shaped r field (.array (.named name)) element (arrayLabel (simpleName name), some t)
  | primitiveItems (kind : CollectionKind) (p : Primitive) :
      Shaped r field (.collection kind) (some (.primitive p)) (arrayLabel p.label, none)
  | namedItems (kind : CollectionKind) {name : String} {t : FieldTarget}
      (h : r.target field name = .ok t) :
      Shaped r field (.collection kind) (some (.named name)) (arrayLabel (simpleName name), some t)

theorem shaped_of_fieldShape {field : String} {type : FieldType} {element : Option FieldType}
    {shape : String × Option FieldTarget} (h : r.fieldShape field type element = .ok shape) :
    r.Shaped field type element shape := by
  cases type with
  | primitive p =>
    cases h
    exact .primitive p element
  | map =>
    cases h
    exact .map element
  | named name =>
    obtain ⟨t, ht, rfl⟩ := map_eq_ok_iff.1 h
    exact .named ht element
  | array component =>
    cases component with
    | primitive p =>
      cases h
      exact .primitiveArray p element
    | named name =>
      obtain ⟨t, ht, rfl⟩ := map_eq_ok_iff.1 h
      exact .namedArray ht element
    | _ => cases h
  | collection kind =>
    rcases element with _ | component
    · cases h
    · cases component with
      | primitive p =>
        cases h
        exact .primitiveItems kind p
      | named name =>
        obtain ⟨t, ht, rfl⟩ := map_eq_ok_iff.1 h
        exact .namedItems kind ht
      | _ => cases h

theorem schemaField_target_iff {owner : String} {f : Field} {s : SchemaField}
    (h : r.schemaField owner f = .ok s) {t : FieldTarget} :
    s.target = some t ↔ f.type = .map ∧ t = .entry ∨
      ∃ name, f.Mentions name ∧ r.target s!"{owner}.{f.name}" name = .ok t := by
  obtain ⟨shape, hshape, rfl⟩ := schemaField_eq_ok_iff.1 h
  have hshaped := shaped_of_fieldShape hshape
  unfold Field.Mentions
  generalize f.type = type, f.element = element at hshaped ⊢
  cases hshaped with
  | primitive p => simp
  | map => simp [eq_comm]
  | named ht => simp [ht]
  | primitiveArray p => simp
  | namedArray ht => simp [ht]
  | primitiveItems kind p => simp
  | namedItems kind ht => simp [ht]

theorem exists_target_of_mentions {owner : String} {f : Field} {s : SchemaField}
    (h : r.schemaField owner f = .ok s) {name : String} (hname : f.Mentions name) :
    ∃ t, r.target s!"{owner}.{f.name}" name = .ok t := by
  rw [exists_target_iff]
  have hlegal := exists_schemaField_iff.1 ⟨s, h⟩
  rcases hname with htype | htype | ⟨kind, htype, helement⟩
  · simpa [htype, LegalFieldType] using hlegal
  · simpa [htype, LegalFieldType, LegalItem] using hlegal
  · simpa [htype, helement, LegalFieldType, LegalItem] using hlegal

theorem map_name_target_eq_some_iff {owner : String} {f : Field} {s : SchemaField}
    (h : r.schemaField owner f = .ok s) {name : String} :
    s.target.map (·.name) = some name ↔ f.RefersTo name := by
  constructor
  · intro htarget
    obtain ⟨t, ht, rfl⟩ := Option.map_eq_some_iff.1 htarget
    rcases (schemaField_target_iff h).1 ht with ⟨hmap, rfl⟩ | ⟨name, hname, ht⟩
    · exact .inl ⟨hmap, rfl⟩
    · rw [(target_eq_ok_iff.1 ht).1]
      exact .inr hname
  · rintro (⟨hmap, rfl⟩ | hname)
    · rw [(schemaField_target_iff h).2 (.inl ⟨hmap, rfl⟩)]
      rfl
    · obtain ⟨t, ht⟩ := exists_target_of_mentions h hname
      rw [(schemaField_target_iff h).2 (.inr ⟨name, hname, ht⟩), Option.map_some,
        (target_eq_ok_iff.1 ht).1]

/-- What a schema field refers to, if that is not a type of its own. -/
def targetEntity? (r : Registry) (f : SchemaField) : Option SchemaEntity :=
  match f.target with
  | some ⟨name, .enum⟩ => (r.enum? name).map .enum
  | some ⟨name, .type _⟩ => if name = entryName then some (.model .entry) else none
  | none => none

theorem targetEntity?_eq_enum_iff {owner : String} {f : Field} {s : SchemaField}
    (h : r.schemaField owner f = .ok s) {e : EnumDecl} :
    r.targetEntity? s = some (.enum e) ↔ ∃ name, f.Mentions name ∧ r.resolve name = .enum e := by
  constructor
  · intro he
    unfold targetEntity? at he
    split at he
    · rename_i name htarget
      obtain ⟨e', henum, he⟩ := Option.map_eq_some_iff.1 he
      obtain rfl : e' = e := by simpa using he
      rcases (schemaField_target_iff h).1 htarget with ⟨-, hentry⟩ | ⟨name', hname, htarget⟩
      · simp [FieldTarget.entry] at hentry
      · obtain ⟨rfl, ⟨⟨e'', he''⟩, -⟩ | ⟨_, _, _, _, _, hrole⟩⟩ := target_eq_ok_iff.1 htarget
        · refine ⟨_, hname, ?_⟩
          obtain ⟨hnone, -⟩ := resolve_eq_enum_iff.1 he''
          exact resolve_eq_enum_iff.2 ⟨hnone, henum⟩
        · cases hrole
    · split at he <;> simp at he
    · cases he
  · rintro ⟨name, hname, hresolve⟩
    obtain ⟨t, ht⟩ := exists_target_of_mentions h hname
    have htarget := (schemaField_target_iff h).2 (.inr ⟨name, hname, ht⟩)
    obtain ⟨tname, role⟩ := t
    obtain ⟨rfl, ⟨-, rfl⟩ | ⟨d, k, hd, -⟩⟩ := target_eq_ok_iff.1 ht
    · simp [targetEntity?, htarget, (resolve_eq_enum_iff.1 hresolve).2]
    · rw [hresolve] at hd
      cases hd

/-- The map entry concept is declared for maps, and for fields that mention it as a type. -/
theorem targetEntity?_eq_model_iff_type {owner : String} {f : Field} {s : SchemaField}
    (h : r.schemaField owner f = .ok s) {m : Model} :
    r.targetEntity? s = some (.model m) ↔ m = .entry ∧
      (f.type = .map ∨ f.Mentions entryName ∧ ∃ d, r.type? entryName = some d) := by
  have hrole {kind : Kind} {name : String} (htarget : s.target = some ⟨name, .type kind⟩) :
      r.targetEntity? s = some (.model m) ↔ name = entryName ∧ m = .entry := by
    by_cases hname : name = entryName <;> simp [targetEntity?, htarget, hname, eq_comm]
  constructor
  · intro hm
    unfold targetEntity? at hm
    split at hm
    · obtain ⟨e, -, he⟩ := Option.map_eq_some_iff.1 hm
      cases he
    · rename_i name kind htarget
      obtain ⟨rfl, rfl⟩ := (hrole htarget).1 (by simpa [targetEntity?, htarget] using hm)
      refine ⟨rfl, ?_⟩
      rcases (schemaField_target_iff h).1 htarget with ⟨hmap, -⟩ | ⟨name', hname, ht⟩
      · exact .inl hmap
      · obtain ⟨rfl, ⟨-, hrole⟩ | ⟨d, k, hd, -⟩⟩ := target_eq_ok_iff.1 ht
        · cases hrole
        · exact .inr ⟨hname, d, resolve_eq_type_iff.1 hd⟩
    · cases hm
  · rintro ⟨rfl, hmap | ⟨hname, entry, hentry⟩⟩
    · exact (hrole ((schemaField_target_iff h).2 (.inl ⟨hmap, rfl⟩))).2 ⟨rfl, rfl⟩
    · obtain ⟨t, ht⟩ := exists_target_of_mentions h hname
      have htarget := (schemaField_target_iff h).2 (.inr ⟨_, hname, ht⟩)
      obtain ⟨tname, role⟩ := t
      obtain ⟨rfl, ⟨⟨e, he⟩, -⟩ | ⟨d, k, -, -, -, rfl⟩⟩ := target_eq_ok_iff.1 ht
      · rw [resolve_eq_type_iff.2 hentry] at he
        cases he
      · exact (hrole htarget).2 ⟨rfl, rfl⟩

theorem targetEntity?_eq_model_iff (hbuilt : r.Built) {owner : String} {f : Field}
    {s : SchemaField} (h : r.schemaField owner f = .ok s) {m : Model} :
    r.targetEntity? s = some (.model m) ↔ m = .entry ∧ f.UsesEntry := by
  rw [targetEntity?_eq_model_iff_type h, and_iff_left hbuilt.exists_entry]
  rfl

theorem mem_targets_iff {k : Kind} {d : TypeDecl} {m : Model} (hm : r.model k d = .ok m)
    (e : SchemaEntity) : e ∈ m.fields.filterMap r.targetEntity? ↔ ∃ f ∈ d.markedFields,
      ∃ s, r.schemaField d.qualifiedName f = .ok s ∧ r.targetEntity? s = some e := by
  have hfields := (isModelOf_of_model hm).fields
  rw [List.mem_filterMap]
  constructor
  · rintro ⟨s, hs, he⟩
    obtain ⟨f, hf, hsf⟩ := exists_mem_left hfields hs
    exact ⟨f, hf, s, hsf, he⟩
  · rintro ⟨f, hf, s, hsf, he⟩
    obtain ⟨s', hs', hsf'⟩ := exists_mem_right hfields hf
    obtain rfl := Except.ok.inj (hsf.symm.trans hsf')
    exact ⟨s, hs', he⟩

theorem exists_schemaField_of_model {k : Kind} {d : TypeDecl} {m : Model}
    (hm : r.model k d = .ok m) {f : Field} (hf : f ∈ d.markedFields) :
    ∃ s, r.schemaField d.qualifiedName f = .ok s :=
  (exists_mem_right (isModelOf_of_model hm).fields hf).imp fun _ hs => hs.2

end Registry

end LedgerSchema
