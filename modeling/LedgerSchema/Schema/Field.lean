import LedgerSchema.Registry.Basic
import LedgerSchema.Schema.Error

/-!
Fields of the schema. The type of a field is written as a label; if it is not primitive, the field
refers to an enumeration or to a type of a reflected kind.
-/

set_option autoImplicit false

namespace LedgerSchema

inductive TargetRole where
  | enum
  | type (kind : Kind)
  deriving DecidableEq

structure FieldTarget where
  name : String
  role : TargetRole
  deriving DecidableEq

structure SchemaField where
  name : String
  label : String
  target : Option FieldTarget := none
  embedded : Bool := true
  optional : Bool := false
  default : Option String := none
  range : Option String := none
  regex : Option String := none
  deriving DecidableEq

namespace SchemaField

def isEnum (f : SchemaField) : Bool := f.target.any (·.role = .enum)

def isConcept (f : SchemaField) : Bool := f.target.any (·.role = .type .concept)

def targetNamespace? (f : SchemaField) : Option String := f.target.map (namespaceOf ·.name)

def isReference (f : SchemaField) : Bool :=
  f.target.isSome && !f.isEnum && !f.isConcept && !f.embedded

end SchemaField

def arrayLabel (label : String) : String := label ++ "[]"

def FieldTarget.entry : FieldTarget := ⟨entryName, .type .concept⟩

namespace Registry

/-- What a name in a field type refers to. -/
def target (r : Registry) (field name : String) : Except SchemaError FieldTarget :=
  match r.resolve name with
  | .enum _ => .ok ⟨name, .enum⟩
  | .type d =>
    match d.kind with
    | some kind =>
      if kind.isReflected then .ok ⟨name, .type kind⟩ else .error (.illegalFieldType field)
    | none => .error (.illegalFieldType field)
  | .unknown => .error (.illegalFieldType field)

/-- The label and the target of a field type. Collections and maps are written as arrays. -/
def fieldShape (r : Registry) (field : String) (type : FieldType) (element : Option FieldType) :
    Except SchemaError (String × Option FieldTarget) :=
  match type with
  | .primitive p => .ok (p.label, none)
  | .array (.primitive p) => .ok (arrayLabel p.label, none)
  | .array (.named name) =>
    (r.target field name).map fun t => (arrayLabel (simpleName name), some t)
  | .array _ => .error (.illegalFieldType field)
  | .map => .ok (arrayLabel (simpleName entryName), some .entry)
  | .named name => (r.target field name).map fun t => (simpleName name, some t)
  | .collection _ =>
    match element with
    | none => .error (.missingElementType field)
    | some (.array _) => .error (.arrayElementType field)
    | some (.primitive p) => .ok (arrayLabel p.label, none)
    | some (.named name) =>
      (r.target field name).map fun t => (arrayLabel (simpleName name), some t)
    | some _ => .error (.illegalFieldType field)

/-- The schema field of a declared field; the owner's name is for messages. -/
def schemaField (r : Registry) (owner : String) (f : Field) : Except SchemaError SchemaField :=
  (r.fieldShape s!"{owner}.{f.name}" f.type f.element).map fun shape =>
    { name := f.name
      label := shape.1
      target := shape.2
      embedded := f.isEmbedded
      optional := f.isOptional
      default := f.default?
      range := f.range?
      regex := f.regex? }

end Registry

end LedgerSchema
