import Mathlib
import LedgerSchema.Document.Load
import LedgerSchema.Proofs.Identifier
import LedgerSchema.Proofs.Registry.Registration

/-!
Loaded registries: built from the standard one, and with no name that the schema may not declare.
The simple names that they declare are identifiers, so the last dot of a qualified name is the one
between the namespace and the simple name.
-/

set_option autoImplicit false

namespace LedgerSchema

theorem mem_of_mem_upsert {α : Type} {key : α → String} {a b : α} {l : List α}
    (h : b ∈ upsert key a l) : b = a ∨ b ∈ l := by
  induction l with
  | nil => exact .inl (List.mem_singleton.1 h)
  | cons c rest ih =>
    rw [upsert] at h
    split at h
    · rcases List.mem_cons.1 h with rfl | h
      · exact .inl rfl
      · exact .inr (List.mem_cons_of_mem _ h)
    · rcases List.mem_cons.1 h with rfl | h
      · exact .inr List.mem_cons_self
      · exact (ih h).imp_right (List.mem_cons_of_mem _)

theorem mem_of_mem_foldl_upsert {α : Type} {key : α → String} {b : α} {l start : List α}
    (h : b ∈ l.foldl (fun items a => upsert key a items) start) : b ∈ l ∨ b ∈ start := by
  induction l generalizing start with
  | nil => exact .inr h
  | cons a rest ih =>
    rcases ih h with h | h
    · exact .inl (List.mem_cons_of_mem _ h)
    · rcases mem_of_mem_upsert h with rfl | h
      · exact .inl List.mem_cons_self
      · exact .inr h

/-- What no step changes is the same after all of them. -/
theorem foldl_frame {α β σ : Type} (view : σ → β) (step : σ → α → σ)
    (hstep : ∀ s a, view (step s a) = view s) (l : List α) (s : σ) :
    view (l.foldl step s) = view s := by
  induction l generalizing s with
  | nil => rfl
  | cons a rest ih => rw [List.foldl_cons, ih, hstep]

/-- The simple names of the declared types and enumerations are identifiers. -/
structure Registry.ProperNames (r : Registry) : Prop where
  types : ∀ d ∈ r.types, isIdentifier d.name.toList = true
  enums : ∀ e ∈ r.enums, isIdentifier e.name.toList = true

namespace Registry

variable {r : Registry}

theorem ProperNames.splitName_type (h : r.ProperNames) {d : TypeDecl} (hd : d ∈ r.types) :
    splitName d.qualifiedName = (d.ns, d.name) :=
  splitName_qualifiedName (not_mem_of_isIdentifier (h.types d hd) (by decide))

theorem ProperNames.splitName_enum (h : r.ProperNames) {e : EnumDecl} (he : e ∈ r.enums) :
    splitName e.qualifiedName = (e.ns, e.name) :=
  splitName_qualifiedName (not_mem_of_isIdentifier (h.enums e he) (by decide))

end Registry

namespace Document

variable {doc : Document} {loaded : Loaded}

theorem load_eq_ok_iff : doc.load = .ok loaded ↔
    doc.checkNames = .ok () ∧ loaded = ⟨doc.toRegistry, doc.warnings⟩ := by
  unfold load
  rw [map_eq_ok_iff]
  exact ⟨fun ⟨⟨⟩, h, he⟩ => ⟨h, he.symm⟩, fun ⟨h, he⟩ => ⟨(), h, he.symm⟩⟩

theorem built_toRegistry (doc : Document) : doc.toRegistry.Built := by
  have htypes (l : List TypeDecl) {r : Registry} (h : r.Built) : (l.foldl .register r).Built := by
    induction l generalizing r with
    | nil => exact h
    | cons d rest ih => exact ih (.register h d)
  have henums (l : List EnumDecl) {r : Registry} (h : r.Built) :
      (l.foldl .registerEnum r).Built := by
    induction l generalizing r with
    | nil => exact h
    | cons e rest ih => exact ih (.registerEnum h e)
  have hqueries (l : List Query) {r : Registry} (h : r.Built) : (l.foldl .addQuery r).Built := by
    induction l generalizing r with
    | nil => exact h
    | cons q rest ih => exact ih (.addQuery h q)
  exact hqueries _ (henums _ (htypes _ .standard))

theorem types_toRegistry (doc : Document) : doc.toRegistry.types =
    doc.types.foldl (fun types d => upsert TypeDecl.qualifiedName d types) [.entry] := by
  have hregister (l : List TypeDecl) (r : Registry) : (l.foldl .register r).types =
      l.foldl (fun types d => upsert TypeDecl.qualifiedName d types) r.types := by
    induction l generalizing r with
    | nil => rfl
    | cons d rest ih => exact ih _
  rw [toRegistry, foldl_frame Registry.types Registry.addQuery fun _ _ => rfl,
    foldl_frame Registry.types Registry.registerEnum fun _ _ => rfl, hregister]
  rfl

theorem enums_toRegistry (doc : Document) : doc.toRegistry.enums =
    doc.enums.foldl (fun enums e => upsert EnumDecl.qualifiedName e enums) [] := by
  have hregister (l : List EnumDecl) (r : Registry) : (l.foldl .registerEnum r).enums =
      l.foldl (fun enums e => upsert EnumDecl.qualifiedName e enums) r.enums := by
    induction l generalizing r with
    | nil => rfl
    | cons e rest ih => exact ih _
  rw [toRegistry, foldl_frame Registry.enums Registry.addQuery fun _ _ => rfl, hregister,
    foldl_frame Registry.enums Registry.register fun _ _ => rfl]
  rfl

theorem mem_types_toRegistry {d : TypeDecl} (h : d ∈ doc.toRegistry.types) :
    d = .entry ∨ d ∈ doc.types := by
  rw [types_toRegistry] at h
  rcases mem_of_mem_foldl_upsert h with h | h
  · exact .inr h
  · exact .inl (List.mem_singleton.1 h)

theorem mem_enums_toRegistry {e : EnumDecl} (h : e ∈ doc.toRegistry.enums) : e ∈ doc.enums := by
  rw [enums_toRegistry] at h
  rcases mem_of_mem_foldl_upsert h with h | h
  · exact h
  · cases h

theorem check_eq_ok_iff {item : String} {result : Except IdentifierError Unit} :
    check item result = .ok () ↔ result = .ok () := by
  cases result <;> simp [check, Except.mapError]

theorem isIdentifier_of_checkName {ns name : String} (h : checkName ns name = .ok ()) :
    isIdentifier name.toList = true := by
  obtain ⟨⟨⟩, -, hname⟩ := bind_eq_ok_iff.1 h
  exact isIdentifier_of_checkIdentifier (check_eq_ok_iff.1 hname)

/-- The declared types pass the check of their names, also the map entry concept. -/
theorem checkType_of_load (h : doc.load = .ok loaded) {d : TypeDecl}
    (hd : d ∈ loaded.registry.types) : checkType d = .ok () := by
  obtain ⟨hnames, rfl⟩ := load_eq_ok_iff.1 h
  obtain ⟨⟨⟩, htypes, -⟩ := bind_eq_ok_iff.1 hnames
  rcases mem_types_toRegistry hd with rfl | hd
  · decide
  · exact forM_eq_ok_iff.1 htypes d hd

theorem checkName_of_load (h : doc.load = .ok loaded) {e : EnumDecl}
    (he : e ∈ loaded.registry.enums) : checkName e.ns e.name = .ok () := by
  obtain ⟨hnames, rfl⟩ := load_eq_ok_iff.1 h
  obtain ⟨⟨⟩, -, henums⟩ := bind_eq_ok_iff.1 hnames
  exact forM_eq_ok_iff.1 henums e (mem_enums_toRegistry he)

/-- The names of a type and of its fields are identifiers if they pass the check. -/
theorem isIdentifier_of_checkType {d : TypeDecl} (h : checkType d = .ok ()) :
    isIdentifier d.name.toList = true ∧ ∀ f ∈ d.fields, isIdentifier f.name.toList = true := by
  obtain ⟨⟨⟩, hname, hfields⟩ := bind_eq_ok_iff.1 h
  refine ⟨isIdentifier_of_checkName hname, fun f hf => ?_⟩
  exact isIdentifier_of_checkIdentifier (check_eq_ok_iff.1 (forM_eq_ok_iff.1 hfields f hf))

theorem properNames_of_load (h : doc.load = .ok loaded) : loaded.registry.ProperNames where
  types _ hd := (isIdentifier_of_checkType (checkType_of_load h hd)).1
  enums _ he := isIdentifier_of_checkName (checkName_of_load h he)

theorem checkNamespace_of_checkName {ns name : String} (h : checkName ns name = .ok ()) :
    checkNamespace ns = .ok () := by
  obtain ⟨⟨⟩, hns, -⟩ := bind_eq_ok_iff.1 h
  exact check_eq_ok_iff.1 hns

theorem checkNamespace_type_of_load (h : doc.load = .ok loaded) {d : TypeDecl}
    (hd : d ∈ loaded.registry.types) : checkNamespace d.ns = .ok () := by
  obtain ⟨⟨⟩, hname, -⟩ := bind_eq_ok_iff.1 (checkType_of_load h hd)
  exact checkNamespace_of_checkName hname

theorem checkNamespace_enum_of_load (h : doc.load = .ok loaded) {e : EnumDecl}
    (he : e ∈ loaded.registry.enums) : checkNamespace e.ns = .ok () :=
  checkNamespace_of_checkName (checkName_of_load h he)

theorem built_of_load (h : doc.load = .ok loaded) : loaded.registry.Built := by
  obtain ⟨-, rfl⟩ := load_eq_ok_iff.1 h
  exact doc.built_toRegistry

/-- Only the dot in front of it separates the name of a type from its namespace. -/
theorem dot_not_mem_of_load (h : doc.load = .ok loaded) {d : TypeDecl}
    (hd : d ∈ loaded.registry.types) : '.' ∉ d.name.toList :=
  not_mem_of_isIdentifier ((properNames_of_load h).types d hd) (by decide)

/-- In the name of a declared type, all but dots are the characters of identifiers. -/
theorem not_mem_type_of_load (h : doc.load = .ok loaded) {type : String} {d : TypeDecl}
    (hd : loaded.registry.type? type = some d) {c : Char} (hc : isIdentifierChar c = false)
    (hdot : c ≠ '.') : c ∉ type.toList := by
  have hmem := Registry.mem_of_type? hd
  rw [← Registry.qualifiedName_of_type? hd]
  exact not_mem_qualifiedName (checkNamespace_type_of_load h hmem)
    ((properNames_of_load h).types d hmem) hc hdot

theorem type_ne_empty_of_load (h : doc.load = .ok loaded) {type : String} {d : TypeDecl}
    (hd : loaded.registry.type? type = some d) : type ≠ "" := by
  have hidentifier := (properNames_of_load h).types d (Registry.mem_of_type? hd)
  have hname : d.name ≠ "" := by
    intro hempty
    rw [hempty] at hidentifier
    cases hidentifier
  rw [← Registry.qualifiedName_of_type? hd, TypeDecl.qualifiedName, qualifiedName]
  split
  · exact hname
  · simp [hname]

end Document

end LedgerSchema
