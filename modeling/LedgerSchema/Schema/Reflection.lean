import LedgerSchema.Registry.Inheritance
import LedgerSchema.Schema.Part
import LedgerSchema.Text.Blank

/-!
The schema of a registry: one part for each namespace, in the order in which the namespaces are
met. Types are taken by kind and within a kind in the order of registration. The enumerations that
fields refer to, and the map entry concept, are declared in their own namespaces when they are met
for the first time.
-/

set_option autoImplicit false

namespace LedgerSchema

/-- Changes the part of a namespace, which is made at the end of the list if there is none. -/
def updatePart (ns : String) (change : Part → Part) : List Part → List Part
  | [] => [change (.empty ns)]
  | p :: rest => if p.ns = ns then change p :: rest else p :: updatePart ns change rest

def part? (parts : List Part) (ns : String) : Option Part := parts.find? (·.ns = ns)

def declareEntry (parts : List Part) : List Part :=
  if (part? parts entryNamespace).any (·.contains (simpleName entryName)) then parts
  else updatePart entryNamespace (·.addModel .entry) parts

namespace Registry

/-- Declares what a field refers to, if that is not a type of its own. -/
def declareTarget (r : Registry) (parts : List Part) (f : SchemaField) : List Part :=
  match f.target with
  | some ⟨name, .enum⟩ =>
    match r.enum? name with
    | some e => updatePart e.ns (·.addEnum e) parts
    | none => parts
  | some ⟨name, .type _⟩ => if name = entryName then declareEntry parts else parts
  | none => parts

/-- Adds the model of a type, after what its fields refer to. -/
def reflectType (r : Registry) (parts : List Part) (kind : Kind) (d : TypeDecl) :
    Except SchemaError (List Part) := do
  let m ← r.model kind d
  let parts := m.fields.foldl r.declareTarget (updatePart d.ns id parts)
  pure (updatePart d.ns (·.addModel m) parts)

/-- The types that the schema is made of, each with its kind. -/
def reflectedTypes (r : Registry) (excluded : List String) : List (Kind × TypeDecl) :=
  Kind.reflected.flatMap fun kind =>
    ((r.ofKind kind).filter fun d =>
      !excluded.contains d.ns && d.qualifiedName ≠ entryName).map fun d => (kind, d)

def checkCycles (r : Registry) : Except SchemaError Unit :=
  match r.cycles.head? with
  | some path => .error (.inheritanceCycle path)
  | none => .ok ()

/-- The schema without the types of the excluded namespaces. -/
def reflect (r : Registry) (excluded : List String) : Except SchemaError (List Part) := do
  r.checkCycles
  (r.reflectedTypes excluded).foldlM (fun parts t => r.reflectType parts t.1 t.2) []

def reflectQueries (r : Registry) : Except SchemaError (List Query) :=
  match r.queries.find? (fun q => isBlankText q.statement) with
  | some q => .error (.emptyStatement q.description)
  | none => .ok r.queries

end Registry

end LedgerSchema
