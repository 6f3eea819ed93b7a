import LedgerSchema.FieldType
import LedgerSchema.Json.Printer

/-!
Why a value has no wire form, or a wire form no value.
-/

set_option autoImplicit false

namespace LedgerSchema

/-- A node or a key that does not have the shape its declared type needs. -/
inductive Mismatch where
  | notPrimitive (node : Json) (p : Primitive)
  | badKey (text : String) (p : Primitive)
  | notCollection (kind : CollectionKind) (node : Json)
  | notArray (target : FieldType) (node : Json)
  | nestedArray (node : Json)
  | notConstant (type : String) (node : Json)
  | notReference (type text : String)
  | notObject (type : String) (node : Json)
  | notMap (node : Json)
  | missingEntryText (name : String) (entry : Json)
  | notItems (type found : String)

def Mismatch.message : Mismatch → String
  | .notPrimitive node p => s!"cannot convert '{node.text}' to {p.label}"
  | .badKey text p => s!"id '{text}' is not a valid {p.label}"
  | .notCollection kind node =>
    s!"{kind.name} is Collection but json '{node.text}' is not array-typed"
  | .notArray target node =>
    s!"resourceClass {target.text} is array-typed but json '{node.text}' is not"
  | .nestedArray node => s!"nested array is not supported as collection element: {node.text}"
  | .notConstant type node => s!"'{node.text}' is not a constant of {type}"
  | .notReference type text =>
    s!"expected a resource reference or object for {type}, got '{text}'"
  | .notObject type node => s!"expected an object for {type}, got '{node.text}'"
  | .notMap node => s!"error parsing type Map<String, String>: expect jsonArray, got {node.text}"
  | .missingEntryText name entry =>
    s!"error parsing type Map<String, String>: missing '{name}' in {entry.text}"
  | .notItems type found => s!"expected a json array of {type}, got {found}"

inductive WireError where
  | unsupportedType (name : String)
  | nonStringMapValue (key type : String)
  | missingType (node : Json)
  | unknownType (name : String)
  | unknownElementType (name : String) (node : Json)
  | unresolvedReference (reference type : String)
  | malformed (text : String)
  | mismatch (m : Mismatch)
  | unsupportedCollection (name : String)
  | noKeyField (type : String)
  | nullKey (type field : String)
  | emptyKey
  | notConstructible (type : String)

def WireError.message : WireError → String
  | .unsupportedType name => s!"field is not a primitive or resource type:{name}"
  | .nonStringMapValue key type =>
    s!"only string-typed value in map is supported, got type '{type}' for key {key}"
  | .missingType node => s!"no $class found in node: {node.text}"
  | .unknownType name => s!"no such class:{name}"
  | .unknownElementType name node => s!"no such class:{name} for {node.text}"
  | .unresolvedReference reference type => s!"unable to parse '{reference}': no such class {type}"
  | .malformed text => s!"unable to parse json:{text}"
  | .mismatch m => m.message
  | .unsupportedCollection name =>
    "resourceClass must be one of specify Set, List, or concrete implementation for Collection, " ++
      s!"got: {name}"
  | .noKeyField type => s!"no id field specified:{type}"
  | .nullKey type field => s!"null id field:{type}.{field}"
  | .emptyKey => "id is null"
  | .notConstructible type => s!"unable to create an instance for {type}"

end LedgerSchema
