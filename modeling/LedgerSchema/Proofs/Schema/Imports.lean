import Mathlib
import LedgerSchema.Proofs.Schema.Reflection

/-!
The imports of parts: a part imports what its models mention, unless it is its own.
-/

set_option autoImplicit false

namespace LedgerSchema

namespace Part

theorem mem_imports_addImport_iff {p : Part} {name n : String} :
    n ∈ (p.addImport name).imports ↔
      n ∈ p.imports ∨ n = name ∧ (splitDots? name).any (·.1 = p.ns) = false := by
  unfold addImport
  by_cases h : (splitDots? name).any (·.1 = p.ns) = true
  · rw [if_pos h, h]
    simp
  · rw [if_neg h, mem_insertName, Bool.eq_false_iff.2 h]
    simp [or_comm]

theorem mem_imports_foldl_iff {names : List String} {p : Part} {n : String} :
    n ∈ (names.foldl addImport p).imports ↔
      n ∈ p.imports ∨ n ∈ names ∧ (splitDots? n).any (·.1 = p.ns) = false := by
  induction names generalizing p with
  | nil => simp
  | cons name names ih =>
    rw [List.foldl_cons, ih, mem_imports_addImport_iff, ns_addImport, List.mem_cons]
    constructor
    · rintro ((h | ⟨rfl, hname⟩) | ⟨h, hname⟩)
      · exact .inl h
      · exact .inr ⟨.inl rfl, hname⟩
      · exact .inr ⟨.inr h, hname⟩
    · rintro (h | ⟨rfl | h, hname⟩)
      · exact .inl (.inl h)
      · exact .inl (.inr ⟨rfl, hname⟩)
      · exact .inr ⟨h, hname⟩

/-- The imports of a part are what its models mention, apart from what lies in its namespace. -/
def ImportsMentioned (p : Part) : Prop :=
  ∀ name, name ∈ p.imports ↔ (∃ m ∈ p.models, name ∈ m.dependencies) ∧
    (splitDots? name).any (·.1 = p.ns) = false

theorem models_addModel (p : Part) (m : Model) : (p.addModel m).models = p.models ++ [m] := by
  simp [models, entities_addModel, SchemaEntity.model?]

theorem importsMentioned_empty (ns : String) : (Part.empty ns).ImportsMentioned := fun name => by
  simp [Part.empty, models]

theorem importsMentioned_addModel {p : Part} (h : p.ImportsMentioned) (m : Model) :
    (p.addModel m).ImportsMentioned := by
  intro name
  have himports : name ∈ (p.addModel m).imports ↔
      name ∈ p.imports ∨ name ∈ m.dependencies ∧ (splitDots? name).any (·.1 = p.ns) = false :=
    mem_imports_foldl_iff
  rw [himports, h name, models_addModel, ns_addModel, ← or_and_right]
  simp [or_and_right, exists_or]

theorem importsMentioned_addEnum {p : Part} (h : p.ImportsMentioned) (e : EnumDecl) :
    (p.addEnum e).ImportsMentioned := by
  unfold addEnum
  split
  · exact h
  · intro name
    have hmodels : ({ p with entities := p.entities ++ [.enum e] } : Part).models = p.models := by
      simp [models, SchemaEntity.model?]
    rw [hmodels]
    exact h name

/-- What the models of a part mention lies in its namespace or is imported. -/
def ImportsAll (p : Part) : Prop :=
  ∀ m ∈ p.models, ∀ name ∈ m.dependencies,
    name ∈ p.imports ∨ (splitDots? name).any (·.1 = p.ns) = true

theorem ImportsMentioned.importsAll {p : Part} (h : p.ImportsMentioned) : p.ImportsAll := by
  intro m hm name hname
  cases hsplit : (splitDots? name).any (·.1 = p.ns) with
  | true => exact .inr rfl
  | false => exact .inl ((h name).2 ⟨⟨m, hm, hname⟩, hsplit⟩)

end Part

namespace Registry

variable {r : Registry} {parts : List Part}

theorem importsMentioned_of_reflect {excluded : List String} (h : r.reflect excluded = .ok parts)
    {p : Part} (hp : p ∈ parts) : p.ImportsMentioned :=
  forall_mem_reflect (P := Part.ImportsMentioned) Part.importsMentioned_empty
    (fun _ e _ hp => Part.importsMentioned_addEnum hp e)
    (fun _ m _ _ hp => Part.importsMentioned_addModel hp m) h p hp

theorem importsAll_of_reflect {excluded : List String} (h : r.reflect excluded = .ok parts)
    {p : Part} (hp : p ∈ parts) : p.ImportsAll := (importsMentioned_of_reflect h hp).importsAll

end Registry

end LedgerSchema
