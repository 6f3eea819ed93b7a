import Mathlib
import LedgerSchema.Proofs.Schema.Extends

/-!
What imports stand for. A part imports the names from other namespaces that its types refer to as
their parent or in their marked fields. Each of them is declared in the part of its namespace unless
that namespace is excluded, but for the map entry concept: a field that needs it declares it, and a
type that only extends it does not.
-/

set_option autoImplicit false

namespace LedgerSchema

namespace TypeDecl

/-- A name that the model of a type refers to, as its parent or in a marked field. -/
def Names (d : TypeDecl) (name : String) : Prop :=
  d.parent = some name ∨ ∃ f ∈ d.markedFields, f.RefersTo name

end TypeDecl

/-- The part of the namespace of a qualified name has an entity of its simple name. -/
def DeclaredIn (parts : List Part) (name : String) : Prop :=
  ∃ p ∈ parts, p.ns = namespaceOf name ∧ p.contains (simpleName name) = true

instance (parts : List Part) (name : String) : Decidable (DeclaredIn parts name) :=
  inferInstanceAs (Decidable (∃ p ∈ parts, p.ns = namespaceOf name ∧
    p.contains (simpleName name) = true))

theorem PartsHold.declaredIn_iff {parts : List Part} {entities : List SchemaEntity}
    (h : PartsHold parts entities) {name : String} :
    DeclaredIn parts name ↔ ∃ e ∈ entities, e.key = splitName name := by
  constructor
  · rintro ⟨p, hp, hns, hname⟩
    obtain ⟨e, he, hname⟩ := List.any_eq_true.1 hname
    exact ⟨e, h.mem_iff.1 ⟨p, hp, he⟩,
      Prod.ext ((h.ns_eq hp he).trans hns) (of_decide_eq_true hname)⟩
  · rintro ⟨e, he, hkey⟩
    obtain ⟨p, hp, hep⟩ := h.mem_iff.2 he
    refine ⟨p, hp, (h.ns_eq hp hep).symm.trans (congrArg Prod.fst hkey), ?_⟩
    exact List.any_eq_true.2 ⟨e, hep, decide_eq_true (congrArg Prod.snd hkey)⟩

namespace Registry

variable {r : Registry} {parts : List Part} {excluded : List String} {name : String}

/-- The map entry concept is in the schema. -/
def EntryUsed (r : Registry) (excluded : List String) : Prop :=
  ∃ t ∈ r.reflectedTypes excluded, ∃ f ∈ t.2.markedFields, f.UsesEntry

/-! The names that a model depends on. -/

theorem IsModelOf.parentName_eq_some_iff {k : Kind} {d : TypeDecl} {m : Model}
    (h : r.IsModelOf k d m) :
    m.parent.map (·.qualifiedName) = some name ↔ d.parent = some name := by
  constructor
  · intro hparent
    obtain ⟨p, hp, rfl⟩ := Option.map_eq_some_iff.1 hparent
    obtain ⟨parent, e, hparent, he, rfl⟩ := h.exists_parent hp
    obtain rfl := qualifiedName_of_type? he
    exact hparent
  · intro hparent
    obtain ⟨e, he, -⟩ := h.parent_kind name hparent
    rw [h.parent_eq, hparent, Option.bind_some, he]
    exact congrArg some (qualifiedName_of_type? he)

theorem IsModelOf.exists_target_iff {k : Kind} {d : TypeDecl} {m : Model}
    (h : r.IsModelOf k d m) :
    (∃ s ∈ m.fields, s.target.map (·.name) = some name) ↔
      ∃ f ∈ d.markedFields, f.RefersTo name := by
  constructor
  · rintro ⟨s, hs, htarget⟩
    obtain ⟨f, hf, hsf⟩ := exists_mem_left h.fields hs
    exact ⟨f, hf, (map_name_target_eq_some_iff hsf).1 htarget⟩
  · rintro ⟨f, hf, hrefers⟩
    obtain ⟨s, hs, hsf⟩ := exists_mem_right h.fields hf
    exact ⟨s, hs, (map_name_target_eq_some_iff hsf).2 hrefers⟩

theorem mem_parentDependency_iff (hnames : r.ProperNames) {k : Kind} {d : TypeDecl} {m : Model}
    (h : r.IsModelOf k d m) :
    name ∈ (m.parent.toList.filter (·.ns ≠ m.ns)).map (·.qualifiedName) ↔
      d.parent = some name ∧ namespaceOf name ≠ d.ns := by
  have hown {p : ModelParent} (hp : m.parent = some p) : namespaceOf p.qualifiedName = p.ns := by
    obtain ⟨parent, e, -, he, rfl⟩ := h.exists_parent hp
    exact congrArg Prod.fst (hnames.splitName_type (mem_of_type? he))
  simp only [← h.parentName_eq_some_iff, List.mem_map, List.mem_filter, Option.mem_toList,
    Option.map_eq_some_iff, decide_eq_true_eq, h.ns_eq]
  constructor
  · rintro ⟨p, ⟨hp, hns⟩, rfl⟩
    exact ⟨⟨p, hp, rfl⟩, (hown hp).symm ▸ hns⟩
  · rintro ⟨⟨p, hp, rfl⟩, hns⟩
    exact ⟨p, ⟨hp, hown hp ▸ hns⟩, rfl⟩

/-- A model depends on what its type names in other namespaces. -/
theorem mem_dependencies_iff (hnames : r.ProperNames) {k : Kind} {d : TypeDecl} {m : Model}
    (hm : r.model k d = .ok m) :
    name ∈ m.dependencies ↔ d.Names name ∧ namespaceOf name ≠ d.ns := by
  have hspec := isModelOf_of_model hm
  have htargets : name ∈ ((m.fields.filterMap (·.target)).filterMap fun t =>
      if namespaceOf t.name = m.ns then none else some t.name) ↔
        (∃ f ∈ d.markedFields, f.RefersTo name) ∧ namespaceOf name ≠ d.ns := by
    simp only [← hspec.exists_target_iff, List.mem_filterMap, Option.map_eq_some_iff,
      Option.ite_none_left_eq_some, Option.some.injEq, hspec.ns_eq]
    constructor
    · rintro ⟨t, ⟨s, hs, ht⟩, hns, rfl⟩
      exact ⟨⟨s, hs, t, ht, rfl⟩, hns⟩
    · rintro ⟨⟨s, hs, t, ht, rfl⟩, hns⟩
      exact ⟨t, ⟨s, hs, ht⟩, hns, rfl⟩
  rw [Model.dependencies, List.mem_append, mem_parentDependency_iff hnames hspec, htargets,
    ← or_and_right]
  rfl

/-- The models of a schema: the map entry concept if used, and those of the reflected types. -/
theorem Reflected.model_mem_iff {entities : List SchemaEntity}
    (h : r.Reflected (r.reflectedTypes excluded) entities) {m : Model} : .model m ∈ entities ↔
      m = .entry ∧ r.EntryUsed excluded ∨
        ∃ t ∈ r.reflectedTypes excluded, r.model t.1 t.2 = .ok m := by
  constructor
  · intro hm
    by_cases hname : m.qualifiedName = entryName
    · rcases h.mayDeclare _ hm with rfl | ⟨k, d, -, -, hne, hmodel⟩
      · exact .inl ⟨rfl, h.entry.1 hm⟩
      · exact absurd ((isModelOf_of_model hmodel).qualifiedName.symm.trans hname) hne
    · obtain ⟨t, ht, hmodel⟩ := exists_mem_left h.models (mem_ownModels_iff.2 ⟨hm, hname⟩)
      exact .inr ⟨t, ht, hmodel⟩
  · rintro (⟨rfl, hused⟩ | ⟨t, ht, hmodel⟩)
    · exact h.entry.2 hused
    · obtain ⟨m', hm', hmodel'⟩ := exists_mem_right h.models ht
      obtain rfl := Except.ok.inj (hmodel'.symm.trans hmodel)
      exact (mem_ownModels_iff.1 hm').1

theorem mem_models_iff (hbuilt : r.Built) (h : r.reflect excluded = .ok parts) {p : Part}
    (hp : p ∈ parts) {m : Model} : m ∈ p.models ↔ m.ns = p.ns ∧
      (m = .entry ∧ r.EntryUsed excluded ∨
        ∃ t ∈ r.reflectedTypes excluded, r.model t.1 t.2 = .ok m) := by
  obtain ⟨entities, hparts, hreflected⟩ := exists_reflected hbuilt h
  rw [Part.models, SchemaEntity.mem_filterMap_model?_iff, hparts.entities_eq p hp, List.mem_filter,
    and_comm, hreflected.model_mem_iff]
  exact and_congr_left' (decide_eq_true_iff (p := m.ns = p.ns))

theorem mem_imports_iff (hbuilt : r.Built) (hnames : r.ProperNames)
    (h : r.reflect excluded = .ok parts) {p : Part} (hp : p ∈ parts) :
    name ∈ p.imports ↔ namespaceOf name ≠ p.ns ∧
      ∃ t ∈ r.reflectedTypes excluded, t.2.ns = p.ns ∧ t.2.Names name := by
  have hsplit : namespaceOf name ≠ p.ns → (splitDots? name).any (·.1 = p.ns) = false := by
    rw [namespaceOf, splitName]
    cases splitDots? name <;> simp
  rw [importsMentioned_of_reflect h hp name]
  constructor
  · rintro ⟨⟨m, hm, hdependency⟩, -⟩
    obtain ⟨hns, ⟨rfl, -⟩ | ⟨t, ht, hmodel⟩⟩ := (mem_models_iff hbuilt h hp).1 hm
    · cases hdependency
    · obtain ⟨hnamed, hne⟩ := (mem_dependencies_iff hnames hmodel).1 hdependency
      have howner := (isModelOf_of_model hmodel).ns_eq.symm.trans hns
      exact ⟨howner ▸ hne, t, ht, howner, hnamed⟩
  · rintro ⟨hne, t, ht, howner, hnamed⟩
    obtain ⟨m, hmodel⟩ := exists_model_of_reflect h ht
    have hns := (isModelOf_of_model hmodel).ns_eq.trans howner
    exact ⟨⟨m, (mem_models_iff hbuilt h hp).2 ⟨hns, .inr ⟨t, ht, hmodel⟩⟩,
      (mem_dependencies_iff hnames hmodel).2 ⟨hnamed, howner ▸ hne⟩⟩, hsplit hne⟩

/-! What the names of the reflected types stand for. -/

theorem MayDeclare.splitName_qualifiedName (hnames : r.ProperNames) {e : SchemaEntity}
    (he : r.MayDeclare e) : splitName e.qualifiedName = e.key := by
  cases e with
  | model m =>
    rcases he with rfl | ⟨k, d, hd, -, -, hmodel⟩
    · decide
    · have hspec := isModelOf_of_model hmodel
      change splitName m.qualifiedName = (m.ns, m.name)
      rw [hspec.qualifiedName, hnames.splitName_type (mem_of_type? hd), hspec.ns_eq, hspec.name_eq]
  | enum e => exact hnames.splitName_enum (List.mem_of_find?_eq_some (resolve_eq_enum_iff.1 he).2)

/-- A registered type of a reflected kind has a model, unless its namespace is excluded. -/
theorem Reflected.exists_entity_of_type {entities : List SchemaEntity} (hnames : r.ProperNames)
    (h : r.Reflected (r.reflectedTypes excluded) entities) {k : Kind} {d : TypeDecl}
    (hd : r.type? name = some d) (hk : d.kind = some k) (hreflected : k.isReflected = true)
    (hne : name ≠ entryName) :
    namespaceOf name ∈ excluded ∨ ∃ e ∈ entities, e.qualifiedName = name := by
  obtain rfl := qualifiedName_of_type? hd
  have hns : namespaceOf d.qualifiedName = d.ns := by
    rw [namespaceOf, hnames.splitName_type (mem_of_type? hd)]
  by_cases hexcluded : d.ns ∈ excluded
  · exact .inl (hns ▸ hexcluded)
  · obtain ⟨m, hm, hmodel⟩ := exists_mem_right h.models
      (mem_reflectedTypes_iff.2 ⟨mem_of_type? hd, hk, hreflected, hexcluded, hne⟩)
    exact .inr ⟨.model m, (mem_ownModels_iff.1 hm).1, (isModelOf_of_model hmodel).qualifiedName⟩

/-- What a reflected type names is declared unless its namespace is excluded. -/
theorem Reflected.exists_entity_of_names {entities : List SchemaEntity} (hnames : r.ProperNames)
    (h : r.Reflected (r.reflectedTypes excluded) entities) {t : Kind × TypeDecl}
    (ht : t ∈ r.reflectedTypes excluded) (hname : t.2.Names name) (hne : name ≠ entryName) :
    namespaceOf name ∈ excluded ∨ ∃ e ∈ entities, e.qualifiedName = name := by
  obtain ⟨m, -, hmodel⟩ := exists_mem_right h.models ht
  rcases hname with hparent | ⟨f, hf, ⟨-, rfl⟩ | hmention⟩
  · obtain ⟨p, hp, hpk⟩ := (isModelOf_of_model hmodel).parent_kind name hparent
    exact h.exists_entity_of_type hnames hp hpk (mem_reflectedTypes_iff.1 ht).2.2.1 hne
  · exact absurd rfl hne
  · obtain ⟨s, hs⟩ := exists_schemaField_of_model hmodel hf
    obtain ⟨target, htarget⟩ := exists_target_of_mentions hs hmention
    rcases (target_eq_ok_iff.1 htarget).2 with ⟨⟨e, he⟩, -⟩ | ⟨d, k, hd, hk, hreflected, -⟩
    · exact .inr ⟨.enum e, (h.enums e).2 ⟨t, ht, f, hf, name, hmention, he⟩,
        qualifiedName_of_enum? (resolve_eq_enum_iff.1 he).2⟩
    · exact h.exists_entity_of_type hnames (resolve_eq_type_iff.1 hd) hk hreflected hne

/-- Only the map entry concept itself is declared under its name. -/
theorem Reflected.entry_declared_iff (hbuilt : r.Built) {entities : List SchemaEntity}
    (h : r.Reflected (r.reflectedTypes excluded) entities) :
    (∃ e ∈ entities, e.key = splitName entryName) ↔ r.EntryUsed excluded := by
  have hkey : SchemaEntity.key (.model .entry) = splitName entryName := by decide
  refine Iff.trans ⟨?_, fun he => ⟨_, he, hkey⟩⟩ h.entry
  rintro ⟨e, he, heq⟩
  have hentry : r.MayDeclare (.model .entry) := Or.inl rfl
  rwa [← (h.mayDeclare e he).eq_of_key hbuilt hentry (heq.trans hkey.symm)]

/-- The names that a loaded registry's schema imports are declared in the part of their namespace,
unless that namespace is excluded, with one exception: a type of another namespace that extends the
map entry concept imports it, and it is declared exactly if a marked field of a reflected type is a
map or refers to it. -/
theorem imports_declared_iff {doc : Document} {loaded : Document.Loaded}
    (hload : doc.load = .ok loaded) (h : loaded.registry.reflect excluded = .ok parts) :
    (∀ p ∈ parts, ∀ name ∈ p.imports, name ≠ entryName →
      namespaceOf name ∈ excluded ∨ DeclaredIn parts name) ∧
    (DeclaredIn parts entryName ↔ loaded.registry.EntryUsed excluded) ∧
    ((∀ p ∈ parts, ∀ name ∈ p.imports, namespaceOf name ∈ excluded ∨ DeclaredIn parts name) ↔
      ∀ t ∈ loaded.registry.reflectedTypes excluded, t.2.parent = some entryName →
        t.2.ns ≠ entryNamespace →
          entryNamespace ∈ excluded ∨ loaded.registry.EntryUsed excluded) := by
  have hbuilt := Document.built_of_load hload
  have hnames := Document.properNames_of_load hload
  obtain ⟨entities, hparts, hreflected⟩ := exists_reflected hbuilt h
  have himports {p : Part} (hp : p ∈ parts) (name : String) :
      name ∈ p.imports ↔ namespaceOf name ≠ p.ns ∧
        ∃ t ∈ loaded.registry.reflectedTypes excluded, t.2.ns = p.ns ∧ t.2.Names name :=
    mem_imports_iff hbuilt hnames h hp
  have hentry : DeclaredIn parts entryName ↔ loaded.registry.EntryUsed excluded :=
    hparts.declaredIn_iff.trans (hreflected.entry_declared_iff hbuilt)
  have hother (p : Part) (hp : p ∈ parts) (name : String) (hname : name ∈ p.imports)
      (hne : name ≠ entryName) : namespaceOf name ∈ excluded ∨ DeclaredIn parts name := by
    obtain ⟨-, t, ht, -, hnamed⟩ := (himports hp name).1 hname
    refine (hreflected.exists_entity_of_names hnames ht hnamed hne).imp_right ?_
    rintro ⟨e, he, rfl⟩
    exact hparts.declaredIn_iff.2
      ⟨e, he, ((hreflected.mayDeclare e he).splitName_qualifiedName hnames).symm⟩
  refine ⟨hother, hentry, fun hall t ht hparent hns => ?_, fun hused p hp name hname => ?_⟩
  · obtain ⟨p, hp, hpns⟩ : ∃ p ∈ parts, p.ns = t.2.ns := by
      obtain ⟨m, hm, hmodel⟩ := exists_mem_right hreflected.models ht
      obtain ⟨p, hp, hpns⟩ := hparts.covered _ (mem_ownModels_iff.1 hm).1
      exact ⟨p, hp, hpns.trans (isModelOf_of_model hmodel).ns_eq⟩
    exact (hall p hp entryName ((himports hp _).2
      ⟨hpns ▸ hns.symm, t, ht, hpns.symm, .inl hparent⟩)).imp_right hentry.1
  · by_cases hne : name = entryName
    · subst hne
      obtain ⟨hns, t, ht, howner, hparent | ⟨f, hf, hrefers⟩⟩ := (himports hp _).1 hname
      · exact (hused t ht hparent (howner ▸ hns.symm)).imp_right hentry.2
      · exact .inr (hentry.2 ⟨t, ht, f, hf, Field.refersTo_entryName_iff.1 hrefers⟩)
    · exact hother p hp name hname hne

theorem imports_declared_of_garage : ∃ loaded parts, garageDocument.load = .ok loaded ∧
    loaded.registry.reflect [] = .ok parts ∧ entryName ∈ parts.flatMap (·.imports) ∧
    ∀ p ∈ parts, ∀ name ∈ p.imports, DeclaredIn parts name := by
  have hload : garageDocument.load = .ok ⟨garage, garageDocument.warnings⟩ :=
    Document.load_eq_ok_iff.2 ⟨by decide, rfl⟩
  obtain ⟨parts, hparts, himport⟩ : ∃ parts, garage.reflect [] = .ok parts ∧
      entryName ∈ parts.flatMap (·.imports) :=
    ⟨_, reflect_eq_ok_iff.2 ⟨not_onCycle_garage, rfl⟩, by decide⟩
  refine ⟨_, parts, hload, hparts, himport, fun p hp name hname => ?_⟩
  refine ((imports_declared_iff hload hparts).2.2.2 ?_ p hp name hname).resolve_left (by simp)
  exact fun t ht hparent => absurd hparent (by revert t; decide)

/-- A type that extends the map entry concept imports it, but nothing declares it. -/
theorem import_undeclared_of_pairs : ∃ loaded parts, Pairs.document.load = .ok loaded ∧
    loaded.registry.reflect [] = .ok parts ∧
    ∃ p ∈ parts, entryName ∈ p.imports ∧ namespaceOf entryName ∉ ([] : List String) ∧
      ¬ DeclaredIn parts entryName :=
  ⟨⟨Pairs.document.toRegistry, _⟩, _, Document.load_eq_ok_iff.2 ⟨by decide, rfl⟩,
    reflect_eq_ok_iff.2 ⟨not_onCycle_pairs, rfl⟩, by decide⟩

end Registry

end LedgerSchema
