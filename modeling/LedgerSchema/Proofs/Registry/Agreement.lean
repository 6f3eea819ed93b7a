import Mathlib
import LedgerSchema.Proofs.Registry.Lineage
import LedgerSchema.Proofs.Registry.Registration

/-!
Registries that find the same declarations under every name. The order of registrations does not
matter to that, as long as no name is registered twice.
-/

set_option autoImplicit false

namespace LedgerSchema

open Relation

universe u

theorem find?_upsert_comm {α : Type u} (key : α → String) {a b : α} (h : key a ≠ key b)
    (l : List α) (name : String) :
    (upsert key b (upsert key a l)).find? (key · = name) =
      (upsert key a (upsert key b l)).find? (key · = name) := by
  rw [find?_upsert, find?_upsert, find?_upsert, find?_upsert]
  by_cases ha : key a = name
  · subst ha
    rw [if_neg h.symm, if_pos rfl, if_pos rfl]
  · rw [if_neg ha, if_neg ha]

inductive Declaration where
  | type (d : TypeDecl)
  | enum (e : EnumDecl)
  deriving DecidableEq

def Declaration.qualifiedName : Declaration → String
  | .type d => d.qualifiedName
  | .enum e => e.qualifiedName

namespace Registry

variable {r r' : Registry} {name : String}

def declare (r : Registry) : Declaration → Registry
  | .type d => r.register d
  | .enum e => r.registerEnum e

def ofDeclarations (declarations : List Declaration) : Registry :=
  declarations.foldl declare standard

theorem Built.foldl_declare (h : r.Built) (declarations : List Declaration) :
    (declarations.foldl declare r).Built := by
  induction declarations generalizing r with
  | nil => exact h
  | cons declaration rest ih =>
    cases declaration with
    | type d => exact ih (.register h d)
    | enum e => exact ih (.registerEnum h e)

theorem built_ofDeclarations (declarations : List Declaration) :
    (ofDeclarations declarations).Built := Built.standard.foldl_declare declarations

theorem enum?_registerEnum (r : Registry) (e : EnumDecl) (name : String) :
    (r.registerEnum e).enum? name = if e.qualifiedName = name then some e else r.enum? name :=
  find?_upsert _ _ _ _

/-- The order in which types are listed does not matter to what is found under a name. -/
theorem type?_eq_of_perm (h : r.types.Perm r'.types) : r.type? = r'.type? := by
  have hfind {r r' : Registry} (h : r.types.Perm r'.types) {name : String} {d : TypeDecl}
      (hd : r.type? name = some d) : r'.type? name = some d := by
    obtain rfl := qualifiedName_of_type? hd
    exact type?_qualifiedName.2 (h.mem_iff.1 (mem_of_type? hd))
  funext name
  apply Option.ext
  intro d
  exact ⟨hfind h, hfind h.symm⟩

theorem parentLink_eq_of_type?_eq (h : r.type? = r'.type?) : r.ParentLink = r'.ParentLink := by
  funext child parent
  rw [ParentLink, ParentLink, parentName?, parentName?, h]

/-- The registries find the same types and the same enumerations. -/
structure Agrees (r r' : Registry) : Prop where
  type?_eq : r.type? = r'.type?
  enum?_eq : r.enum? = r'.enum?

namespace Agrees

theorem refl (r : Registry) : r.Agrees r := ⟨rfl, rfl⟩

theorem trans {r'' : Registry} (h : r.Agrees r') (h' : r'.Agrees r'') : r.Agrees r'' :=
  ⟨h.type?_eq.trans h'.type?_eq, h.enum?_eq.trans h'.enum?_eq⟩

theorem declare (h : r.Agrees r') (declaration : Declaration) :
    (r.declare declaration).Agrees (r'.declare declaration) := by
  cases declaration with
  | type d =>
    refine ⟨funext fun name => ?_, h.enum?_eq⟩
    rw [Registry.declare, Registry.declare, type?_register, type?_register, h.type?_eq]
  | enum e =>
    refine ⟨h.type?_eq, funext fun name => ?_⟩
    rw [Registry.declare, Registry.declare, enum?_registerEnum, enum?_registerEnum, h.enum?_eq]

theorem foldl_declare (h : r.Agrees r') (declarations : List Declaration) :
    (declarations.foldl Registry.declare r).Agrees (declarations.foldl Registry.declare r') := by
  induction declarations generalizing r r' with
  | nil => exact h
  | cons declaration rest ih => exact ih (h.declare declaration)

theorem declare_comm (r : Registry) {a b : Declaration} (h : a.qualifiedName ≠ b.qualifiedName) :
    ((r.declare a).declare b).Agrees ((r.declare b).declare a) := by
  cases a with
  | type d =>
    cases b with
    | type d' => exact ⟨funext (find?_upsert_comm TypeDecl.qualifiedName h r.types), rfl⟩
    | enum e => exact ⟨rfl, rfl⟩
  | enum e =>
    cases b with
    | type d => exact ⟨rfl, rfl⟩
    | enum e' => exact ⟨rfl, funext (find?_upsert_comm EnumDecl.qualifiedName h r.enums)⟩

theorem of_perm {l l' : List Declaration} (hperm : l.Perm l')
    (hnames : (l.map (·.qualifiedName)).Nodup) (r : Registry) :
    (l.foldl Registry.declare r).Agrees (l'.foldl Registry.declare r) := by
  induction hperm generalizing r with
  | nil => exact .refl r
  | cons a _ ih => exact ih (List.nodup_cons.1 hnames).2 (r.declare a)
  | swap a b rest =>
    rw [List.map_cons, List.map_cons, List.nodup_cons] at hnames
    exact (declare_comm r (List.ne_of_not_mem_cons hnames.1)).foldl_declare rest
  | trans hperm _ ih ih' =>
    exact (ih hnames r).trans (ih' ((hperm.map _).nodup_iff.1 hnames) r)

/-! What registries that agree share. -/

theorem resolve_eq (h : r.Agrees r') : r.resolve = r'.resolve := by
  funext name
  rw [Registry.resolve, Registry.resolve, h.type?_eq, h.enum?_eq]

theorem mem_types_iff (h : r.Agrees r') {d : TypeDecl} : d ∈ r.types ↔ d ∈ r'.types := by
  rw [← type?_qualifiedName, ← type?_qualifiedName, h.type?_eq]

theorem parentLink_eq (h : r.Agrees r') : r.ParentLink = r'.ParentLink :=
  parentLink_eq_of_type?_eq h.type?_eq

theorem onCycle_iff (h : r.Agrees r') : r.OnCycle name ↔ r'.OnCycle name := by
  rw [OnCycle, OnCycle, h.parentLink_eq]

end Agrees

/-- The order in which differently named types and enumerations are registered does not matter to
what is found under a name. -/
theorem agrees_ofDeclarations {l l' : List Declaration} (hperm : l.Perm l')
    (hnames : (l.map (·.qualifiedName)).Nodup) :
    (ofDeclarations l).Agrees (ofDeclarations l') := .of_perm hperm hnames standard

end Registry

end LedgerSchema
