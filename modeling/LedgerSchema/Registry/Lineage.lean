import LedgerSchema.Registry.Basic

/-!
Inheritance by parent links: the line of ancestors of a type, the fields it declares and inherits,
and assignability. A line ends at a type without parent, at a parent that is not registered, and
before a type that it has already passed.
-/

set_option autoImplicit false

namespace LedgerSchema

abbrev TypePool := List (String × TypeDecl)

namespace TypePool

def get? (pool : TypePool) (name : String) : Option TypeDecl :=
  (pool.find? (·.1 = name)).map (·.2)

def without (pool : TypePool) (name : String) : TypePool := pool.filter (·.1 ≠ name)

theorem length_without_lt {pool : TypePool} {name : String} {d : TypeDecl}
    (h : pool.get? name = some d) : (pool.without name).length < pool.length := by
  obtain ⟨entry, hentry, -⟩ := Option.map_eq_some_iff.1 h
  refine List.length_filter_lt_length_iff_exists.2 ⟨entry, List.mem_of_find?_eq_some hentry, ?_⟩
  simpa using List.find?_some hentry

/-- Follows parent links from a name. A type that was passed is no longer in the pool. -/
def lineage (pool : TypePool) (name : String) : List TypeDecl :=
  match _h : pool.get? name with
  | none => []
  | some d =>
    d :: match d.parent with
      | none => []
      | some parent => lineage (pool.without name) parent
termination_by pool.length
decreasing_by exact length_without_lt _h

end TypePool

namespace Registry

def parentName? (r : Registry) (name : String) : Option String := (r.type? name).bind (·.parent)

def pool (r : Registry) : TypePool := r.types.map fun d => (d.qualifiedName, d)

theorem get?_pool (r : Registry) (name : String) : r.pool.get? name = r.type? name := by
  simp [pool, TypePool.get?, type?, List.find?_map, Function.comp_def]

def ancestors (r : Registry) (name : String) : List TypeDecl := r.pool.lineage name

/-- Own fields come before inherited ones. -/
def declaredFields (r : Registry) (name : String) : List Field :=
  (r.ancestors name).flatMap (·.fields)

def markedFields (r : Registry) (name : String) : List Field :=
  (r.declaredFields name).filter (·.isMarked)

/-- The key of the type: the first primary field, its own or inherited. -/
def primaryField? (r : Registry) (name : String) : Option Field :=
  (r.declaredFields name).find? (·.isPrimary)

def isAssignable (r : Registry) (target candidate : String) : Bool :=
  (r.ancestors candidate).any (·.qualifiedName = target)

end Registry

end LedgerSchema
