import LedgerSchema.Schema.Model

/-!
Parts: all that one namespace declares, and the names that it imports from others.
-/

set_option autoImplicit false

namespace LedgerSchema

inductive SchemaEntity where
  | model (m : Model)
  | enum (e : EnumDecl)
  deriving DecidableEq

namespace SchemaEntity

def name : SchemaEntity → String
  | .model m => m.name
  | .enum e => e.name

def model? : SchemaEntity → Option Model
  | .model m => some m
  | .enum _ => none

def enum? : SchemaEntity → Option EnumDecl
  | .model _ => none
  | .enum e => some e

end SchemaEntity

/-- Entities are in the order of insertion; imports are in ascending order, each of them once. -/
structure Part where
  ns : String
  entities : List SchemaEntity := []
  imports : List String := []
  deriving DecidableEq

/-- Puts a name into its place in an ascending list, unless it is there. -/
def insertName (name : String) : List String → List String
  | [] => [name]
  | n :: rest =>
    if name = n then n :: rest
    else if name < n then name :: n :: rest
    else n :: insertName name rest

theorem mem_insertName {name n : String} {l : List String} :
    n ∈ insertName name l ↔ n = name ∨ n ∈ l := by
  fun_induction insertName name l <;> grind

namespace Part

def empty (ns : String) : Part := { ns }

def fileName (p : Part) : String := s!"models/{p.ns}.cto"

def models (p : Part) : List Model := p.entities.filterMap (·.model?)

def enums (p : Part) : List EnumDecl := p.entities.filterMap (·.enum?)

def contains (p : Part) (name : String) : Bool := p.entities.any (·.name = name)

/-- Names of the part's own namespace are not imported. -/
def addImport (p : Part) (name : String) : Part :=
  if (splitDots? name).any (·.1 = p.ns) then p
  else { p with imports := insertName name p.imports }

def addModel (p : Part) (m : Model) : Part :=
  let p := m.dependencies.foldl addImport p
  { p with entities := p.entities ++ [.model m] }

/-- Adds an enumeration unless the part has an entity of that name. -/
def addEnum (p : Part) (e : EnumDecl) : Part :=
  if p.contains e.name then p else { p with entities := p.entities ++ [.enum e] }

end Part

end LedgerSchema
