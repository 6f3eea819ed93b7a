import LedgerSchema.Declaration

/-!
The registry: the declared types and enumerations, each under its qualified name and in the order in
which the names were first registered, and the declared queries. Registering a name again replaces
its declaration in place.
-/

set_option autoImplicit false

namespace LedgerSchema

universe u

/-- Puts an item in place of the one with the same key, or at the end. -/
def upsert {α : Type u} (key : α → String) (a : α) : List α → List α
  | [] => [a]
  | b :: rest => if key b = key a then a :: rest else b :: upsert key a rest

theorem map_key_upsert {α : Type u} (key : α → String) (a : α) (l : List α) :
    (upsert key a l).map key =
      if key a ∈ l.map key then l.map key else l.map key ++ [key a] := by
  induction l with
  | nil => simp [upsert]
  | cons b rest ih => grind [upsert]

theorem nodup_upsert {α : Type u} {key : α → String} {l : List α} (h : (l.map key).Nodup) (a : α) :
    ((upsert key a l).map key).Nodup := by
  rw [map_key_upsert]
  split
  · exact h
  · simp_all [List.nodup_append]

/-! A table with its keys. The items say their keys themselves, so the items alone will do. -/

/-- Puts an item under a name in a map that remembers the order in which names came. -/
def putEntry {α : Type u} (name : String) (a : α) : List (String × α) → List (String × α)
  | [] => [(name, a)]
  | (name', b) :: rest =>
    if name' = name then (name', a) :: rest else (name', b) :: putEntry name a rest

/-- Puts the items under their names, one after the other. -/
def entriesOf {α : Type u} (key : α → String) (l : List α) : List (String × α) :=
  l.foldl (fun entries a => putEntry (key a) a entries) []

theorem putEntry_map {α : Type u} {key : α → String} (a : α) (table : List α) :
    putEntry (key a) a (table.map fun b => (key b, b)) =
      (upsert key a table).map fun b => (key b, b) := by
  induction table with
  | nil => rfl
  | cons b rest ih =>
    rw [List.map_cons, putEntry, upsert]
    by_cases h : key b = key a
    · rw [if_pos h, if_pos h, List.map_cons, h]
    · rw [if_neg h, if_neg h, List.map_cons, ih]

structure Registry where
  types : List TypeDecl
  enums : List EnumDecl
  queries : List Query
  nodup_types : (types.map TypeDecl.qualifiedName).Nodup
  nodup_enums : (enums.map EnumDecl.qualifiedName).Nodup

/-- What a qualified name stands for; a type hides an enumeration of the same name. -/
inductive Resolution where
  | type (d : TypeDecl)
  | enum (e : EnumDecl)
  | unknown

namespace Registry

def empty : Registry := ⟨[], [], [], .nil, .nil⟩

def register (r : Registry) (d : TypeDecl) : Registry :=
  { r with
    types := upsert TypeDecl.qualifiedName d r.types
    nodup_types := nodup_upsert r.nodup_types d }

def registerEnum (r : Registry) (e : EnumDecl) : Registry :=
  { r with
    enums := upsert EnumDecl.qualifiedName e r.enums
    nodup_enums := nodup_upsert r.nodup_enums e }

def addQuery (r : Registry) (q : Query) : Registry := { r with queries := r.queries ++ [q] }

def standard : Registry := empty.register .entry

def type? (r : Registry) (name : String) : Option TypeDecl :=
  r.types.find? (·.qualifiedName = name)

def enum? (r : Registry) (name : String) : Option EnumDecl :=
  r.enums.find? (·.qualifiedName = name)

def resolve (r : Registry) (name : String) : Resolution :=
  match r.type? name with
  | some d => .type d
  | none =>
    match r.enum? name with
    | some e => .enum e
    | none => .unknown

def contains (r : Registry) (name : String) : Bool :=
  (r.type? name).isSome || (r.enum? name).isSome

def size (r : Registry) : Nat := r.types.length + r.enums.length

def ofKind (r : Registry) (kind : Kind) : List TypeDecl := r.types.filter (·.kind = some kind)

/-- A registration that replaces a declaration is worth a warning. -/
inductive Warning where
  | replacedType (name : String)
  | replacedEnum (name : String)
  | missingParent (name parent : String)
  deriving DecidableEq

def Warning.message : Warning → String
  | .replacedType name => s!"Replaced existing registration for type {name}"
  | .replacedEnum name => s!"Replaced existing registration for enum {name}"
  | .missingParent name parent => s!"Type {name} extends unregistered type {parent}"

def registerWarnings (r : Registry) (d : TypeDecl) : List Warning :=
  if (r.type? d.qualifiedName).isSome then [.replacedType d.qualifiedName] else []

def registerEnumWarnings (r : Registry) (e : EnumDecl) : List Warning :=
  if (r.enum? e.qualifiedName).isSome then [.replacedEnum e.qualifiedName] else []

theorem qualifiedName_of_type? {r : Registry} {name : String} {d : TypeDecl}
    (h : r.type? name = some d) : d.qualifiedName = name := by
  simpa using List.find?_some h

theorem mem_of_type? {r : Registry} {name : String} {d : TypeDecl} (h : r.type? name = some d) :
    d ∈ r.types := List.mem_of_find?_eq_some h

theorem qualifiedName_of_enum? {r : Registry} {name : String} {e : EnumDecl}
    (h : r.enum? name = some e) : e.qualifiedName = name := by
  simpa using List.find?_some h

end Registry

end LedgerSchema
