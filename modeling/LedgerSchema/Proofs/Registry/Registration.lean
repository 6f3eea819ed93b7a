import Mathlib
import LedgerSchema.Registry.Basic

/-!
Registration: what a name stands for, also after a declaration was put under it. The registries that
are built from the standard one always have a type under the name of the map entry concept, its own
or one that replaced it.
-/

set_option autoImplicit false

namespace LedgerSchema

universe u

theorem find?_upsert {α : Type u} (key : α → String) (a : α) (l : List α) (name : String) :
    (upsert key a l).find? (key · = name) =
      if key a = name then some a else l.find? (key · = name) := by
  induction l with
  | nil => by_cases h : key a = name <;> simp [upsert, h]
  | cons b rest ih =>
    rw [upsert]
    by_cases hb : key b = key a <;> by_cases ha : key a = name <;> simp_all [List.find?_cons]

theorem find?_key_eq_some_iff {α : Type u} {key : α → String} {l : List α}
    (h : (l.map key).Nodup) {a : α} : l.find? (key · = key a) = some a ↔ a ∈ l := by
  refine ⟨List.mem_of_find?_eq_some, fun ha => ?_⟩
  induction l with
  | nil => cases ha
  | cons b rest ih =>
    rw [List.map_cons, List.nodup_cons] at h
    rcases List.mem_cons.1 ha with rfl | ha
    · simp
    · have hne : key b ≠ key a := fun hkey => h.1 (hkey ▸ List.mem_map_of_mem ha)
      rw [List.find?_cons_of_neg (by simpa using hne), ih h.2 ha]

namespace Registry

variable {r : Registry}

theorem type?_register (r : Registry) (d : TypeDecl) (name : String) :
    (r.register d).type? name = if d.qualifiedName = name then some d else r.type? name :=
  find?_upsert _ _ _ _

theorem type?_qualifiedName {d : TypeDecl} : r.type? d.qualifiedName = some d ↔ d ∈ r.types :=
  find?_key_eq_some_iff r.nodup_types

theorem eq_of_qualifiedName {d d' : TypeDecl} (hd : d ∈ r.types) (hd' : d' ∈ r.types)
    (h : d.qualifiedName = d'.qualifiedName) : d = d' :=
  List.inj_on_of_nodup_map r.nodup_types hd hd' h

theorem resolve_eq_enum_iff {name : String} {e : EnumDecl} :
    r.resolve name = .enum e ↔ r.type? name = none ∧ r.enum? name = some e := by
  unfold resolve
  cases r.type? name <;> cases r.enum? name <;> simp

theorem resolve_eq_type_iff {name : String} {d : TypeDecl} :
    r.resolve name = .type d ↔ r.type? name = some d := by
  unfold resolve
  cases r.type? name <;> cases r.enum? name <;> simp

/-- The registries that registrations make of the standard one. -/
inductive Built : Registry → Prop
  | standard : Built .standard
  | register {r : Registry} (h : Built r) (d : TypeDecl) : Built (r.register d)
  | registerEnum {r : Registry} (h : Built r) (e : EnumDecl) : Built (r.registerEnum e)
  | addQuery {r : Registry} (h : Built r) (q : Query) : Built (r.addQuery q)

theorem type?_standard (name : String) :
    standard.type? name = if entryName = name then some .entry else none := by
  rw [standard, type?_register, TypeDecl.qualifiedName_entry]
  rfl

theorem Built.exists_entry (h : r.Built) : ∃ d, r.type? entryName = some d := by
  induction h with
  | standard => exact ⟨.entry, by simp [type?_standard]⟩
  | @register r _ d ih =>
    rw [type?_register]
    by_cases hname : d.qualifiedName = entryName
    · exact ⟨d, if_pos hname⟩
    · simpa [hname] using ih
  | registerEnum _ _ ih => exact ih
  | addQuery _ _ ih => exact ih

end Registry

end LedgerSchema
