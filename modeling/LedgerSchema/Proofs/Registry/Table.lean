import Mathlib
import LedgerSchema.Document.Load
import LedgerSchema.Proofs.Registry.Agreement
import LedgerSchema.Proofs.Registry.Cycles

/-!
What a sequence of registrations leaves behind: tables in which every name has the place of its
first registration and the declaration of its last one, and a warning for every registration that
replaced another.
-/

set_option autoImplicit false

namespace LedgerSchema

universe u

section Table

variable {α : Type u} (key : α → String)

def lastNamed? (l : List α) (name : String) : Option α := l.reverse.find? (key · = name)

/-- The table of the items of a list: every name once and in the order in which the names came
first, each with the last item of that name. -/
structure IsTable (l table : List α) : Prop where
  names : table.map key = (l.map key).eraseDups
  find? : ∀ name, table.find? (key · = name) = lastNamed? key l name
  entries : entriesOf key l = table.map fun a => (key a, a)

variable {key} {l table : List α}

theorem lastNamed?_append_singleton (l : List α) (a : α) (name : String) :
    lastNamed? key (l ++ [a]) name = if key a = name then some a else lastNamed? key l name := by
  rw [lastNamed?, List.reverse_append, List.reverse_singleton, List.singleton_append,
    List.find?_cons]
  by_cases h : key a = name <;> simp [h, lastNamed?]

theorem eraseDups_append_singleton (l : List String) (name : String) :
    (l ++ [name]).eraseDups =
      if name ∈ l.eraseDups then l.eraseDups else l.eraseDups ++ [name] := by
  rw [List.eraseDups_append]
  by_cases h : name ∈ l <;> simp [h, List.removeAll, List.eraseDups_cons]

namespace IsTable

theorem nil : IsTable key [] [] := ⟨rfl, fun _ => rfl, rfl⟩

theorem upsert (h : IsTable key l table) (a : α) :
    IsTable key (l ++ [a]) (upsert key a table) where
  names := by
    rw [map_key_upsert, h.names, List.map_append, List.map_singleton, eraseDups_append_singleton]
  find? name := by rw [find?_upsert, h.find?, lastNamed?_append_singleton]
  entries := by
    rw [entriesOf, List.foldl_append, List.foldl_cons, List.foldl_nil, ← entriesOf, h.entries,
      putEntry_map]

/-- Each item of the table is the last one of its name. -/
theorem lastNamed?_key (h : IsTable key l table) {a : α} (ha : a ∈ table) :
    lastNamed? key l (key a) = some a := by
  have hnodup : (table.map key).Nodup := by
    rw [h.names]
    exact nodup_eraseDups _
  rw [← h.find?]
  exact (find?_key_eq_some_iff hnodup).2 ha

theorem length_eq (h : IsTable key l table) : table.length = (l.map key).toFinset.card := by
  have hnames : (l.map key).toFinset = (l.map key).eraseDups.toFinset := by
    ext name
    simp
  rw [hnames, List.toFinset_card_of_nodup (nodup_eraseDups _), ← h.names, List.length_map]

theorem mem_map_iff (h : IsTable key l table) {name : String} :
    name ∈ table.map key ↔ name ∈ l.map key := by
  rw [h.names, List.mem_eraseDups]

theorem isSome_find?_iff (h : IsTable key l table) (name : String) :
    (table.find? (key · = name)).isSome ↔ name ∈ l.map key := by
  rw [← h.mem_map_iff]
  simp

end IsTable

end Table

namespace Declaration

def asType? : Declaration → Option TypeDecl
  | .type d => some d
  | .enum _ => none

def asEnum? : Declaration → Option EnumDecl
  | .type _ => none
  | .enum e => some e

/-- The warning that the declaration replaces another. It tells the table and the name. -/
def replaced : Declaration → Registry.Warning
  | .type d => .replacedType d.qualifiedName
  | .enum e => .replacedEnum e.qualifiedName

def lastType? (declared : List Declaration) : String → Option TypeDecl :=
  lastNamed? TypeDecl.qualifiedName (declared.filterMap asType?)

def lastEnum? (declared : List Declaration) : String → Option EnumDecl :=
  lastNamed? EnumDecl.qualifiedName (declared.filterMap asEnum?)

theorem replaced_type_mem_iff {name : String} {declared : List Declaration} :
    .replacedType name ∈ declared.map replaced ↔
      name ∈ (declared.filterMap asType?).map TypeDecl.qualifiedName := by
  induction declared with
  | nil => simp
  | cons declaration rest ih => cases declaration <;> simp_all [replaced, asType?]

theorem replaced_enum_mem_iff {name : String} {declared : List Declaration} :
    .replacedEnum name ∈ declared.map replaced ↔
      name ∈ (declared.filterMap asEnum?).map EnumDecl.qualifiedName := by
  induction declared with
  | nil => simp
  | cons declaration rest ih => cases declaration <;> simp_all [replaced, asEnum?]

end Declaration

theorem registrationWarnings_append_singleton {α : Type}
    (warn : Registry → α → List Registry.Warning) (add : Registry → α → Registry) (r : Registry)
    (l : List α) (a : α) :
    Document.registrationWarnings warn add r (l ++ [a]) =
      Document.registrationWarnings warn add r l ++ warn (l.foldl add r) a := by
  induction l generalizing r with
  | nil => simp [Document.registrationWarnings]
  | cons b rest ih => simp [Document.registrationWarnings, ih]

namespace Registry

open Declaration

def declareWarnings (r : Registry) : Declaration → List Warning
  | .type d => r.registerWarnings d
  | .enum e => r.registerEnumWarnings e

/-- The registry holds the tables of what was declared, in the given order. -/
structure Records (r : Registry) (declared : List Declaration) : Prop where
  types : IsTable TypeDecl.qualifiedName (declared.filterMap asType?) r.types
  enums : IsTable EnumDecl.qualifiedName (declared.filterMap asEnum?) r.enums

namespace Records

variable {r : Registry} {declared : List Declaration}

theorem empty : Records .empty [] := ⟨.nil, .nil⟩

theorem declare (h : r.Records declared) (call : Declaration) :
    (r.declare call).Records (declared ++ [call]) := by
  cases call with
  | type d =>
    constructor
    · simpa [List.filterMap_cons, asType?, Registry.declare, register] using h.types.upsert d
    · simpa [List.filterMap_cons, asEnum?, Registry.declare, register] using h.enums
  | enum e =>
    constructor
    · simpa [List.filterMap_cons, asType?, Registry.declare, registerEnum] using h.types
    · simpa [List.filterMap_cons, asEnum?, Registry.declare, registerEnum] using h.enums.upsert e

theorem foldl_declare (h : r.Records declared) (calls : List Declaration) :
    (calls.foldl Registry.declare r).Records (declared ++ calls) := by
  induction calls generalizing r declared with
  | nil => simpa using h
  | cons call rest ih => simpa using ih (h.declare call)

theorem type?_eq (h : r.Records declared) (name : String) :
    r.type? name = lastType? declared name := h.types.find? name

theorem enum?_eq (h : r.Records declared) (name : String) :
    r.enum? name = lastEnum? declared name := h.enums.find? name

theorem resolve_eq (h : r.Records declared) (name : String) :
    r.resolve name =
      match lastType? declared name, lastEnum? declared name with
      | some d, _ => .type d
      | none, some e => .enum e
      | none, none => .unknown := by
  rw [resolve, h.type?_eq, h.enum?_eq]
  cases lastType? declared name <;> cases lastEnum? declared name <;> rfl

theorem size_eq (h : r.Records declared) :
    r.size = ((declared.filterMap asType?).map TypeDecl.qualifiedName).toFinset.card +
      ((declared.filterMap asEnum?).map EnumDecl.qualifiedName).toFinset.card := by
  rw [size, h.types.length_eq, h.enums.length_eq]

/-- A declaration is worth a warning if its name stands in the table it goes to. -/
theorem declareWarnings_eq (h : r.Records declared) (call : Declaration) :
    r.declareWarnings call =
      if call.replaced ∈ declared.map replaced then [call.replaced] else [] := by
  cases call with
  | type d =>
    have hname := h.types.isSome_find?_iff d.qualifiedName
    rw [← replaced_type_mem_iff] at hname
    exact if_congr hname rfl rfl
  | enum e =>
    have hname := h.enums.isSome_find?_iff e.qualifiedName
    rw [← replaced_enum_mem_iff] at hname
    exact if_congr hname rfl rfl

end Records

inductive Start where
  | empty
  | standard

namespace Start

def registry : Start → Registry
  | .empty => .empty
  | .standard => .standard

def declared : Start → List Declaration
  | .empty => []
  | .standard => [.type .entry]

def after (start : Start) (calls : List Declaration) : Registry :=
  calls.foldl declare start.registry

def warnings (start : Start) (calls : List Declaration) : List Warning :=
  Document.registrationWarnings declareWarnings declare start.registry calls

theorem records_after (start : Start) (calls : List Declaration) :
    (start.after calls).Records (start.declared ++ calls) := by
  apply Records.foldl_declare
  cases start with
  | empty => exact .empty
  | standard => exact Records.empty.declare (.type .entry)

theorem warnings_append_singleton (start : Start) (calls : List Declaration) (call : Declaration) :
    start.warnings (calls ++ [call]) = start.warnings calls ++
      if call.replaced ∈ (start.declared ++ calls).map replaced then [call.replaced] else [] := by
  rw [warnings, registrationWarnings_append_singleton]
  apply congrArg
  exact (start.records_after calls).declareWarnings_eq call

end Start

/-- Registrations from a new registry on leave tables of the declared types and enumerations, which
are what is found, resolved and counted, and a warning for each one whose name was there before. -/
theorem tables_of_calls (start : Start) (calls : List Declaration) :
    let declared := start.declared ++ calls
    let types := declared.filterMap asType?
    let enums := declared.filterMap asEnum?
    let r := start.after calls
    IsTable TypeDecl.qualifiedName types r.types ∧ IsTable EnumDecl.qualifiedName enums r.enums ∧
    (∀ d ∈ r.types, lastType? declared d.qualifiedName = some d) ∧
    (∀ e ∈ r.enums, lastEnum? declared e.qualifiedName = some e) ∧
    (∀ name, r.type? name = lastType? declared name ∧ r.enum? name = lastEnum? declared name ∧
      r.resolve name =
        match lastType? declared name, lastEnum? declared name with
        | some d, _ => .type d
        | none, some e => .enum e
        | none, none => .unknown) ∧
    r.size = (types.map TypeDecl.qualifiedName).toFinset.card +
      (enums.map EnumDecl.qualifiedName).toFinset.card ∧
    start.warnings [] = [] ∧
    ∀ call, start.warnings (calls ++ [call]) = start.warnings calls ++
      if call.replaced ∈ declared.map replaced then [call.replaced] else [] := by
  intro declared types enums r
  have h : r.Records declared := start.records_after calls
  refine ⟨h.types, h.enums, ?_, ?_, ?_, h.size_eq, rfl, start.warnings_append_singleton calls⟩
  · intro d hd
    exact h.types.lastNamed?_key hd
  · intro e he
    exact h.enums.lastNamed?_key he
  · intro name
    exact ⟨h.type?_eq name, h.enum?_eq name, h.resolve_eq name⟩

/-- Names that are split in two ways share a place among the types, not with an enumeration. -/
example :
    let calls : List Declaration := [.type { ns := "org", name := "acme.Car" },
      .enum { ns := "org.acme", name := "Car", constants := [] },
      .type { ns := "org.acme", name := "Van" }, .type { ns := "org.acme", name := "Car" }]
    (Start.empty.after calls).types.map (·.name) = ["Car", "Van"] ∧
      Start.empty.warnings calls = [.replacedType "org.acme.Car"] := by
  decide

end Registry

end LedgerSchema
