import Mathlib
import LedgerSchema.Proofs.Document.Load
import LedgerSchema.Proofs.Schema.Identity
import LedgerSchema.Proofs.Schema.Imports

/-!
What the block of a type says of its parent, and what the type has from it.
-/

set_option autoImplicit false

namespace LedgerSchema

namespace Model

theorem identityClause_eq_parent_iff {m : Model} {name : String} :
    m.identityClause = .parent name ↔ (m.kind = .asset ∨ m.kind = .participant → m.key = none) ∧
      ∃ p, m.parent = some p ∧ p.name = name := by
  unfold identityClause
  cases m.kind <;> cases m.key <;> cases m.parent <;> simp

theorem parent_eq_none_of_absent {m : Model} (h : m.identityClause = .absent) :
    m.parent = none := by
  unfold identityClause at h
  cases hparent : m.parent with
  | none => rfl
  | some p =>
    rw [hparent] at h
    split at h <;> simp_all

end Model

namespace Registry

variable {r : Registry}

namespace IsModelOf

variable {k : Kind} {d : TypeDecl} {m : Model}

theorem map_name_fields (h : r.IsModelOf k d m) :
    m.fields.map (·.name) = d.markedFields.map (·.name) := by
  rw [← List.forall₂_eq_eq_eq, List.forall₂_map_left_iff, List.forall₂_map_right_iff]
  exact h.fields.flip.imp fun _ _ hs => name_of_schemaField hs

theorem parent_eq_none_iff (h : r.IsModelOf k d m) : m.parent = none ↔ d.parent = none := by
  rw [h.parent_eq, Option.map_eq_none_iff]
  cases hparent : d.parent with
  | none => simp
  | some name =>
    obtain ⟨p, hp, -⟩ := h.parent_kind name hparent
    simp [hp]

/-- The parent that a model names is the registered parent of the type. -/
theorem exists_parent (h : r.IsModelOf k d m) {p : ModelParent} (hp : m.parent = some p) :
    ∃ name e, d.parent = some name ∧ r.type? name = some e ∧ p = ⟨e.ns, e.name⟩ := by
  rw [h.parent_eq, Option.map_eq_some_iff] at hp
  obtain ⟨e, he, rfl⟩ := hp
  obtain ⟨name, hname, he⟩ := Option.bind_eq_some_iff.1 he
  exact ⟨name, e, hname, he, rfl⟩

end IsModelOf

def garageDocument : Document where
  types := [Garage.person, Garage.vehicle, Garage.car]
  enums := [⟨"org.acme", "Colour", ["RED", "BLUE"]⟩]

/-! A parent beside a type of its name, and the map entry concept as a parent. -/

namespace Branches

def near : TypeDecl where
  ns := "org.acme"
  name := "Base"
  kind := some .concept
  fields := [.data "near" (.primitive .string)]

def far : TypeDecl where
  ns := "org.base"
  name := "Base"
  kind := some .concept
  fields := [.data "far" (.primitive .string)]

def van : TypeDecl where
  ns := "org.acme"
  name := "Van"
  kind := some .concept
  parent := some "org.base.Base"

def document : Document := { types := [near, far, van] }

end Branches

namespace Pairs

def pair : TypeDecl where
  ns := "org.acme"
  name := "Pair"
  kind := some .concept
  parent := some entryName

def document : Document := { types := [pair] }

end Pairs

theorem not_onCycle_branches (name : String) : ¬ Branches.document.toRegistry.OnCycle name :=
  not_onCycle_of_rank (fun n => if n = "org.acme.Van" then 1 else 0) (by decide) name

theorem not_onCycle_pairs (name : String) : ¬ Pairs.document.toRegistry.OnCycle name :=
  not_onCycle_of_rank (fun n => if n = "org.acme.Pair" then 1 else 0) (by decide) name

end Registry

end LedgerSchema
