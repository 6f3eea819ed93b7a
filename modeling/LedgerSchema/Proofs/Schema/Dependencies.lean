import Mathlib
import LedgerSchema.Proofs.Schema.Agreement

/-!
The imports of a part are the names from other namespaces that its models mention. A name is split
at its last dot to find out where it lies, and that is the namespace that it was declared in, also
if one namespace begins with the name of another.
-/

set_option autoImplicit false

namespace LedgerSchema

/-- The names in a model: that of its parent, and those that its fields depend on. -/
def Model.Mentions (m : Model) (name : String) : Prop :=
  m.parent.map (·.qualifiedName) = some name ∨ ∃ s ∈ m.fields, s.target.map (·.name) = some name

namespace Registry

variable {r : Registry} {parts : List Part} {excluded : List String} {name : String}

def declaredNamespace? (r : Registry) (name : String) : Option String :=
  match r.resolve name with
  | .type d => some d.ns
  | .enum e => some e.ns
  | .unknown => none

/-- The namespace in front of the last dot of a name is the one that it is declared in. -/
theorem declaredNamespace?_eq (hnames : r.ProperNames) (hknown : r.resolve name ≠ .unknown) :
    r.declaredNamespace? name = some (namespaceOf name) := by
  unfold declaredNamespace?
  cases hresolve : r.resolve name with
  | unknown => exact absurd hresolve hknown
  | type d =>
    have hd := resolve_eq_type_iff.1 hresolve
    rw [← qualifiedName_of_type? hd, namespaceOf, hnames.splitName_type (mem_of_type? hd)]
  | enum e =>
    have he := (resolve_eq_enum_iff.1 hresolve).2
    rw [← qualifiedName_of_enum? he, namespaceOf,
      hnames.splitName_enum (List.mem_of_find?_eq_some he)]

section

variable {k : Kind} {d : TypeDecl} {m : Model}

theorem mentions_iff_names (hm : r.model k d = .ok m) : m.Mentions name ↔ d.Names name := by
  have hspec := isModelOf_of_model hm
  rw [Model.Mentions, hspec.parentName_eq_some_iff, hspec.exists_target_iff, TypeDecl.Names]

theorem resolve_ne_unknown_of_names (hbuilt : r.Built) (hm : r.model k d = .ok m)
    (h : d.Names name) : r.resolve name ≠ .unknown := by
  have hspec := isModelOf_of_model hm
  rcases h with hparent | ⟨f, hf, ⟨-, rfl⟩ | hmentions⟩
  · obtain ⟨e, he, -⟩ := hspec.parent_kind name hparent
    rw [resolve_eq_type_iff.2 he]
    exact nofun
  · obtain ⟨e, he⟩ := hbuilt.exists_entry
    rw [resolve_eq_type_iff.2 he]
    exact nofun
  · obtain ⟨s, -, hs⟩ := exists_mem_right hspec.fields hf
    obtain ⟨t, ht⟩ := exists_target_of_mentions hs hmentions
    rcases (target_eq_ok_iff.1 ht).2 with ⟨⟨e, he⟩, -⟩ | ⟨e, k, he, -⟩
    · rw [he]
      exact nofun
    · rw [he]
      exact nofun

end

/-- What a model of a part mentions, the type that it is the model of names. -/
theorem mentions_iff_of_mem_models (hbuilt : r.Built) (h : r.reflect excluded = .ok parts)
    {p : Part} (hp : p ∈ parts) {m : Model} (hm : m ∈ p.models) :
    m.Mentions name ↔
      ∃ t ∈ r.reflectedTypes excluded, r.model t.1 t.2 = .ok m ∧ t.2.Names name := by
  constructor
  · intro hmentions
    rcases ((mem_models_iff hbuilt h hp).1 hm).2 with ⟨rfl, -⟩ | ⟨t, ht, hmodel⟩
    · -- The map entry concept has no parent, and its fields are texts.
      simp [Model.Mentions, Model.entry] at hmentions
    · exact ⟨t, ht, hmodel, (mentions_iff_names hmodel).1 hmentions⟩
  · rintro ⟨t, -, hmodel, hnamed⟩
    exact (mentions_iff_names hmodel).2 hnamed

theorem mem_imports_iff_mentions (hbuilt : r.Built) (hnames : r.ProperNames)
    (h : r.reflect excluded = .ok parts) {p : Part} (hp : p ∈ parts) :
    name ∈ p.imports ↔ namespaceOf name ≠ p.ns ∧ ∃ m ∈ p.models, m.Mentions name := by
  rw [mem_imports_iff hbuilt hnames h hp]
  refine and_congr_right fun _ => ?_
  constructor
  · rintro ⟨t, ht, hns, hnamed⟩
    obtain ⟨m, hmodel⟩ := exists_model_of_reflect h ht
    have hm : m ∈ p.models :=
      (mem_models_iff hbuilt h hp).2 ⟨(isModelOf_of_model hmodel).ns_eq.trans hns,
        .inr ⟨t, ht, hmodel⟩⟩
    exact ⟨m, hm, (mentions_iff_names hmodel).2 hnamed⟩
  · rintro ⟨m, hm, hmentions⟩
    obtain ⟨t, ht, hmodel, hnamed⟩ := (mentions_iff_of_mem_models hbuilt h hp hm).1 hmentions
    have hns := (isModelOf_of_model hmodel).ns_eq.symm.trans ((mem_models_iff hbuilt h hp).1 hm).1
    exact ⟨t, ht, hns, hnamed⟩

/-- The imports of a part are in ascending order, each of them once, and they are the names from
other namespaces that its models mention: the parents of its types, and what their marked fields
refer to. The namespace of such a name is the one that it is declared in. -/
theorem imports_exact {doc : Document} {loaded : Document.Loaded} (hload : doc.load = .ok loaded)
    (h : loaded.registry.reflect excluded = .ok parts) {p : Part} (hp : p ∈ parts) :
    p.imports.Pairwise (· < ·) ∧
    (∀ name, name ∈ p.imports ↔ namespaceOf name ≠ p.ns ∧ ∃ m ∈ p.models, m.Mentions name) ∧
    ∀ m ∈ p.models, ∀ name,
      (m.Mentions name ↔ ∃ t ∈ loaded.registry.reflectedTypes excluded,
        loaded.registry.model t.1 t.2 = .ok m ∧ t.2.Names name) ∧
      (m.Mentions name → loaded.registry.declaredNamespace? name = some (namespaceOf name)) := by
  have hbuilt := Document.built_of_load hload
  have hnames := Document.properNames_of_load hload
  refine ⟨importsAscending_of_reflect h hp,
    fun name => mem_imports_iff_mentions hbuilt hnames h hp, fun m hm name => ?_⟩
  have hmentions := @mentions_iff_of_mem_models _ _ _ name hbuilt h _ hp _ hm
  refine ⟨hmentions, fun hmentioned => ?_⟩
  obtain ⟨t, -, hmodel, hnamed⟩ := hmentions.1 hmentioned
  exact declaredNamespace?_eq hnames (resolve_ne_unknown_of_names hbuilt hmodel hnamed)

/-! A namespace inside of another: the one is imported, and the other is not. -/

namespace Nested

def thing : TypeDecl where
  ns := "org.acme.base"
  name := "Thing"
  kind := some .asset
  fields := [{ Field.data "id" (.primitive .string) with primary := true }]

def box : TypeDecl where
  ns := "org.acme"
  name := "Box"
  kind := some .asset
  parent := some "org.acme.base.Thing"
  fields := [.data "labels" .map, .pointer "owner" (.named "org.acme.Person")]

def document : Document where
  types := [Garage.person, thing, box]

end Nested

theorem not_onCycle_nested (name : String) : ¬ Nested.document.toRegistry.OnCycle name :=
  not_onCycle_of_rank (fun n => if n = "org.acme.Box" then 1 else 0) (by decide) name

theorem imports_exact_of_nested : ∃ loaded parts, Nested.document.load = .ok loaded ∧
    loaded.registry.reflect [] = .ok parts ∧ ∃ p ∈ parts, p.ns = "org.acme" ∧
      p.imports = ["org.acme.base.Thing", entryName] ∧ p.imports.Pairwise (· < ·) ∧
      (∀ name, name ∈ p.imports ↔ namespaceOf name ≠ p.ns ∧ ∃ m ∈ p.models, m.Mentions name) ∧
      ∀ m ∈ p.models, ∀ name,
        (m.Mentions name ↔ ∃ t ∈ loaded.registry.reflectedTypes [],
          loaded.registry.model t.1 t.2 = .ok m ∧ t.2.Names name) ∧
        (m.Mentions name → loaded.registry.declaredNamespace? name = some (namespaceOf name)) := by
  have hload : Nested.document.load =
      .ok ⟨Nested.document.toRegistry, Nested.document.warnings⟩ :=
    Document.load_eq_ok_iff.2 ⟨by decide, rfl⟩
  obtain ⟨parts, hparts, p, hp, hns, himports⟩ : ∃ parts,
      Nested.document.toRegistry.reflect [] = .ok parts ∧ ∃ p ∈ parts, p.ns = "org.acme" ∧
        p.imports = ["org.acme.base.Thing", entryName] :=
    ⟨_, reflect_eq_ok_iff.2 ⟨not_onCycle_nested, rfl⟩, by decide⟩
  exact ⟨_, parts, hload, hparts, p, hp, hns, himports, imports_exact hload hparts hp⟩

end Registry

end LedgerSchema
