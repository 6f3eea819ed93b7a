import LedgerSchema.Registry.Lineage

/-!
What is wrong with the parent links of a registry: cycles, and parents that are not registered.
Every type has at most one parent, so the line of ancestors of a type leads into at most one cycle.
-/

set_option autoImplicit false

namespace LedgerSchema

def leastName : List String → Option String
  | [] => none
  | n :: rest =>
    match leastName rest with
    | none => some n
    | some m => if m < n then some m else some n

namespace Registry

/-- Follows parent links until the walk is back at its start, but not more links than the limit. -/
def walkBack (r : Registry) (start : String) : Nat → String → List String
  | 0, _ => []
  | limit + 1, name =>
    match r.parentName? name with
    | none => []
    | some parent => parent :: if parent = start then [] else r.walkBack start limit parent

/-- The members of a cycle in the order of the links, from the least name back to it. -/
def cyclePath (r : Registry) (members : List String) : List String :=
  match leastName members with
  | none => []
  | some start => start :: r.walkBack start members.length start

/-- A component of more than one type, or of one that is its own parent. -/
def isCyclic (r : Registry) (members : List String) : Bool :=
  1 < members.length || members.head?.any fun n => r.parentName? n = some n

/-- The paths of the components that have a cycle, given the strongly connected components of the
parent links. -/
def cyclePaths (r : Registry) (components : List (List String)) : List (List String) :=
  (components.filter r.isCyclic).map r.cyclePath

/-- The cycle that the line of ancestors of a type leads into. -/
def cycleFrom? (r : Registry) (name : String) : Option (List String) :=
  let line := r.ancestors name
  match line.getLast?.bind (·.parent) with
  | none => none
  | some entry =>
    let names := line.map (·.qualifiedName)
    if entry ∈ names then some (r.cyclePath (names.dropWhile (· ≠ entry))) else none

/-- Every cycle once, in the order in which the lines of the registered types lead into them. -/
def cycles (r : Registry) : List (List String) :=
  (r.types.filterMap fun d => r.cycleFrom? d.qualifiedName).eraseDups

def missingParents (r : Registry) : List (String × String) :=
  r.types.filterMap fun d =>
    match d.parent with
    | none => none
    | some parent => if (r.type? parent).isNone then some (d.qualifiedName, parent) else none

def inheritanceValid (r : Registry) : Bool := r.cycles.isEmpty && r.missingParents.isEmpty

end Registry

end LedgerSchema
