import Mathlib
import LedgerSchema.Proofs.Registry.Agreement
import LedgerSchema.Proofs.Schema.Exclusion
import LedgerSchema.Proofs.Schema.ImportTargets

/-!
Schemas of registries that find the same declarations under every name. They have the same
namespaces, and in the parts of a namespace the same entities and the same imports; the order in
which types are met shows in the order of the parts and of the entities of a part only.
-/

set_option autoImplicit false

namespace LedgerSchema

theorem pairwise_insertName {names : List String} (h : names.Pairwise (· < ·)) (name : String) :
    (insertName name names).Pairwise (· < ·) := by
  induction names with
  | nil => simp [insertName]
  | cons n rest ih =>
    obtain ⟨hn, hrest⟩ := List.pairwise_cons.1 h
    rw [insertName]
    split
    · exact h
    · rename_i hne
      split
      · rename_i hlt
        refine List.pairwise_cons.2 ⟨List.forall_mem_cons.2 ⟨hlt, fun m hm => ?_⟩, h⟩
        exact hlt.trans (hn m hm)
      · rename_i hle
        refine List.pairwise_cons.2 ⟨fun m hm => ?_, ih hrest⟩
        rcases mem_insertName.1 hm with rfl | hm
        · exact lt_of_le_of_ne (not_lt.1 hle) (Ne.symm hne)
        · exact hn m hm

namespace Part

def ImportsAscending (p : Part) : Prop := p.imports.Pairwise (· < ·)

theorem importsAscending_addImport {p : Part} (h : p.ImportsAscending) (name : String) :
    (p.addImport name).ImportsAscending := by
  unfold addImport
  split
  · exact h
  · exact pairwise_insertName h name

theorem importsAscending_addModel {p : Part} (h : p.ImportsAscending) (m : Model) :
    (p.addModel m).ImportsAscending := by
  have himports (names : List String) {p : Part} (h : p.ImportsAscending) :
      (names.foldl addImport p).ImportsAscending := by
    induction names generalizing p with
    | nil => exact h
    | cons name names ih => exact ih (importsAscending_addImport h name)
  exact himports m.dependencies h

theorem importsAscending_addEnum {p : Part} (h : p.ImportsAscending) (e : EnumDecl) :
    (p.addEnum e).ImportsAscending := by
  unfold addEnum
  split <;> exact h

/-- Imports are determined by the models of a part. -/
theorem imports_eq_of_perm {p p' : Part} (hns : p.ns = p'.ns) (hmodels : p.models.Perm p'.models)
    (h : p.ImportsMentioned) (h' : p'.ImportsMentioned) (hp : p.ImportsAscending)
    (hp' : p'.ImportsAscending) : p.imports = p'.imports := by
  have hmem (name : String) : name ∈ p.imports ↔ name ∈ p'.imports := by
    simp only [h name, h' name, hns, hmodels.mem_iff]
  have hperm : p.imports.Perm p'.imports :=
    (List.perm_ext_iff_of_nodup (hp.imp ne_of_lt) (hp'.imp ne_of_lt)).2 hmem
  exact hperm.eq_of_pairwise' hp hp'

end Part

/-- The schemas differ in the order of the parts and of the entities of a part at most. -/
structure SameSchema (parts parts' : List Part) : Prop where
  namespaces : (parts.map (·.ns)).Perm (parts'.map (·.ns))
  imports : ∀ p ∈ parts, ∀ p' ∈ parts', p.ns = p'.ns → p.imports = p'.imports
  entities : ∀ p ∈ parts, ∀ p' ∈ parts', p.ns = p'.ns → p.entities.Perm p'.entities

namespace Registry

variable {r r' : Registry} {parts parts' : List Part} {excluded : List String}

theorem importsAscending_of_reflect (h : r.reflect excluded = .ok parts) {p : Part}
    (hp : p ∈ parts) : p.ImportsAscending :=
  forall_mem_reflect (P := Part.ImportsAscending) (fun _ => .nil)
    (fun _ e _ hp => Part.importsAscending_addEnum hp e)
    (fun _ m _ _ hp => Part.importsAscending_addModel hp m) h p hp

namespace Agrees

theorem target_eq (h : r.Agrees r') : r.target = r'.target := by
  funext field name
  rw [Registry.target, Registry.target, h.resolve_eq]

theorem schemaField_eq (h : r.Agrees r') : r.schemaField = r'.schemaField := by
  funext owner f
  simp only [Registry.schemaField, Registry.fieldShape, h.target_eq]

theorem model_eq (h : r.Agrees r') : r.model = r'.model := by
  funext kind d
  simp only [Registry.model, Registry.modelParent, h.schemaField_eq, h.type?_eq]

theorem mem_reflectedTypes_iff (h : r.Agrees r') {t : Kind × TypeDecl} :
    t ∈ r.reflectedTypes excluded ↔ t ∈ r'.reflectedTypes excluded := by
  rw [Registry.mem_reflectedTypes_iff, Registry.mem_reflectedTypes_iff, h.mem_types_iff]

theorem entryUsed_iff (h : r.Agrees r') : r.EntryUsed excluded ↔ r'.EntryUsed excluded := by
  simp only [EntryUsed, h.mem_reflectedTypes_iff]

theorem declaresIn_iff (h : r.Agrees r') {f : Field} {ns : String} :
    r.DeclaresIn f ns ↔ r'.DeclaresIn f ns := by
  simp only [DeclaresIn, h.resolve_eq, h.type?_eq]

theorem exists_reflect_iff (h : r.Agrees r') (excluded : List String) :
    (∃ parts, r.reflect excluded = .ok parts) ↔ ∃ parts, r'.reflect excluded = .ok parts := by
  simp only [Registry.exists_reflect_iff, h.onCycle_iff, h.mem_reflectedTypes_iff, h.model_eq]

theorem mem_entities_iff (h : r.Agrees r') {entities entities' : List SchemaEntity}
    (he : r.Reflected (r.reflectedTypes excluded) entities)
    (he' : r'.Reflected (r'.reflectedTypes excluded) entities') {e : SchemaEntity} :
    e ∈ entities ↔ e ∈ entities' := by
  cases e with
  | model m =>
    simp only [he.model_mem_iff, he'.model_mem_iff, h.entryUsed_iff, h.mem_reflectedTypes_iff,
      h.model_eq]
  | enum e => simp only [he.enums, he'.enums, h.mem_reflectedTypes_iff, h.resolve_eq]

theorem mem_ns_iff (h : r.Agrees r') (hparts : r.reflect excluded = .ok parts)
    (hparts' : r'.reflect excluded = .ok parts') {ns : String} :
    ns ∈ parts.map (·.ns) ↔ ns ∈ parts'.map (·.ns) := by
  simp only [mem_ns_reflect_iff hparts, mem_ns_reflect_iff hparts', h.mem_reflectedTypes_iff,
    h.declaresIn_iff]

/-- Registries that agree have the same schema. -/
theorem sameSchema (h : r.Agrees r') (hbuilt : r.Built) (hbuilt' : r'.Built)
    (hparts : r.reflect excluded = .ok parts) (hparts' : r'.reflect excluded = .ok parts') :
    SameSchema parts parts' := by
  obtain ⟨entities, hhold, hreflected⟩ := exists_reflected hbuilt hparts
  obtain ⟨entities', hhold', hreflected'⟩ := exists_reflected hbuilt' hparts'
  have hperm : entities.Perm entities' :=
    (List.perm_ext_iff_of_nodup (.of_map _ hreflected.nodup) (.of_map _ hreflected'.nodup)).2
      fun _ => h.mem_entities_iff hreflected hreflected'
  have hentities (p : Part) (hp : p ∈ parts) (p' : Part) (hp' : p' ∈ parts') (hns : p.ns = p'.ns) :
      p.entities.Perm p'.entities := by
    rw [hhold.entities_eq p hp, hhold'.entities_eq p' hp', hns]
    exact hperm.filter _
  refine ⟨(List.perm_ext_iff_of_nodup hhold.nodup hhold'.nodup).2 fun _ =>
    h.mem_ns_iff hparts hparts', fun p hp p' hp' hns => ?_, hentities⟩
  exact Part.imports_eq_of_perm hns ((hentities p hp p' hp' hns).filterMap _)
    (importsMentioned_of_reflect hparts hp) (importsMentioned_of_reflect hparts' hp')
    (importsAscending_of_reflect hparts hp) (importsAscending_of_reflect hparts' hp')

end Agrees

/-- The order in which differently named types and enumerations are registered does not change the
schema: there is none for either order, or there is one for both, with the same namespaces, and in
each namespace with the same imports and the same entities. -/
theorem reflect_ofDeclarations_perm {l l' : List Declaration} (hperm : l.Perm l')
    (hnames : (l.map (·.qualifiedName)).Nodup) (excluded : List String) :
    (∃ e e', (ofDeclarations l).reflect excluded = .error e ∧
      (ofDeclarations l').reflect excluded = .error e') ∨
    ∃ parts parts', (ofDeclarations l).reflect excluded = .ok parts ∧
      (ofDeclarations l').reflect excluded = .ok parts' ∧ SameSchema parts parts' := by
  have hagrees := agrees_ofDeclarations hperm hnames
  have hiff := hagrees.exists_reflect_iff excluded
  cases hparts : (ofDeclarations l).reflect excluded with
  | error e =>
    cases hparts' : (ofDeclarations l').reflect excluded with
    | error e' => exact .inl ⟨e, e', rfl, rfl⟩
    | ok parts' =>
      obtain ⟨parts, h⟩ := hiff.2 ⟨parts', hparts'⟩
      rw [hparts] at h
      cases h
  | ok parts =>
    obtain ⟨parts', hparts'⟩ := hiff.1 ⟨parts, hparts⟩
    exact .inr ⟨parts, parts', rfl, hparts', hagrees.sameSchema (built_ofDeclarations l)
      (built_ofDeclarations l') hparts hparts'⟩

def Garage.declarations : List Declaration :=
  [.type person, .type vehicle, .type car, .enum ⟨"org.acme", "Colour", ["RED", "BLUE"]⟩]

theorem reflect_ofDeclarations_reverse_garage :
    Garage.declarations.Perm Garage.declarations.reverse ∧
    (Garage.declarations.map (·.qualifiedName)).Nodup ∧
    ∃ parts parts', (ofDeclarations Garage.declarations).reflect [] = .ok parts ∧
      (ofDeclarations Garage.declarations.reverse).reflect [] = .ok parts' ∧
      parts ≠ parts' ∧ SameSchema parts parts' := by
  have hperm : Garage.declarations.Perm Garage.declarations.reverse := (List.reverse_perm _).symm
  have hnames : (Garage.declarations.map (·.qualifiedName)).Nodup := by decide
  have hgarage : ofDeclarations Garage.declarations = garage := rfl
  have hcycle (name : String) : ¬ (ofDeclarations Garage.declarations.reverse).OnCycle name := by
    rw [← (agrees_ofDeclarations hperm hnames).onCycle_iff, hgarage]
    exact not_onCycle_garage name
  obtain ⟨parts, parts', hparts, hparts', hne⟩ : ∃ parts parts',
      (ofDeclarations Garage.declarations).reflect [] = .ok parts ∧
      (ofDeclarations Garage.declarations.reverse).reflect [] = .ok parts' ∧ parts ≠ parts' :=
    ⟨_, _, reflect_eq_ok_iff.2 ⟨hgarage ▸ not_onCycle_garage, rfl⟩,
      reflect_eq_ok_iff.2 ⟨hcycle, rfl⟩, by decide⟩
  refine ⟨hperm, hnames, parts, parts', hparts, hparts', hne, ?_⟩
  rcases reflect_ofDeclarations_perm hperm hnames [] with ⟨e, _, he, -⟩ | ⟨q, q', hq, hq', hsame⟩
  · rw [hparts] at he
    cases he
  · obtain rfl := Except.ok.inj (hparts.symm.trans hq)
    obtain rfl := Except.ok.inj (hparts'.symm.trans hq')
    exact hsame

end Registry

end LedgerSchema
