import LedgerSchema.Schema.Field

/-!
Models: the assets, participants, transactions and concepts of a namespace. A transaction has
neither a key nor a field of the reserved name, and no model has two keys.
-/

set_option autoImplicit false

namespace LedgerSchema

structure ModelParent where
  ns : String
  name : String
  deriving DecidableEq

def ModelParent.qualifiedName (p : ModelParent) : String := LedgerSchema.qualifiedName p.ns p.name

structure Model where
  ns : String
  name : String
  kind : Kind
  fields : List SchemaField := []
  /-- The place of the key among the fields. -/
  keyIndex : Option Nat := none
  parent : Option ModelParent := none
  deriving DecidableEq

namespace Model

def qualifiedName (m : Model) : String := LedgerSchema.qualifiedName m.ns m.name

def key (m : Model) : Option SchemaField := m.keyIndex.bind (m.fields[·]?)

def push (m : Model) (f : SchemaField) : Model := { m with fields := m.fields ++ [f] }

/-- Appends a field, as the key if it is primary. The place of the key is noted before the field is
there. -/
def addField (m : Model) (f : SchemaField) (primary : Bool) : Model × Except SchemaError Unit :=
  if m.kind = .transaction ∧ primary then (m, .error (.transactionKey m.qualifiedName))
  else if m.kind = .transaction ∧ f.name = transactionIdField then
    (m, .error (.transactionReservedField m.qualifiedName))
  else if primary then
    match m.key with
    | some existing => (m, .error (.duplicateKey existing.name f.name))
    | none => ({ m with keyIndex := some m.fields.length }.push f, .ok ())
  else (m.push f, .ok ())

/-- The model with one more field, given up if the field is refused. -/
def withField (m : Model) (f : SchemaField) (primary : Bool) : Except SchemaError Model :=
  match m.addField f primary with
  | (m, .ok ()) => .ok m
  | (_, .error e) => .error e

/-- Assets and participants need a key, or a parent that they have it from. -/
def needsKey (m : Model) : Bool :=
  (m.kind == .asset || m.kind == .participant) && m.keyIndex.isNone && m.parent.isNone

def validate (m : Model) : Except SchemaError Unit :=
  if m.needsKey then .error (.missingKey m.qualifiedName) else .ok ()

def dependencies (m : Model) : List String :=
  (m.parent.toList.filter (·.ns ≠ m.ns)).map (·.qualifiedName) ++
    (m.fields.filterMap (·.target)).filterMap fun t =>
      if namespaceOf t.name = m.ns then none else some t.name

/-- The map entry concept, whatever is registered under its name. -/
def entry : Model where
  ns := entryNamespace
  name := simpleName entryName
  kind := .concept
  fields := [{ name := "key", label := "String" }, { name := "value", label := "String" }]

end Model

namespace Registry

/-- The parent of a model has to be registered with the same kind. -/
def modelParent (r : Registry) (d : TypeDecl) (kind : Kind) :
    Except SchemaError (Option ModelParent) :=
  match d.parent with
  | none => .ok none
  | some name =>
    match r.type? name with
    | some p =>
      if p.kind = some kind then .ok (some ⟨p.ns, p.name⟩)
      else .error (.illegalParent d.qualifiedName name kind)
    | none => .error (.illegalParent d.qualifiedName name kind)

def model (r : Registry) (kind : Kind) (d : TypeDecl) : Except SchemaError Model := do
  let parent ← r.modelParent d kind
  let m ← d.markedFields.foldlM
    (fun m f => do
      let field ← r.schemaField d.qualifiedName f
      m.withField field f.isPrimary)
    { ns := d.ns, name := d.name, kind, parent : Model }
  m.validate
  pure m

end Registry

end LedgerSchema
