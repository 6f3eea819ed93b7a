import LedgerSchema.Instant.Basic
import LedgerSchema.KeyMap
import LedgerSchema.Number.Binary64

/-!
Runtime values of fields and instances of declared types. Maps and the fields of an instance are
ordered by key, and a field that was never set reads as null.
-/

set_option autoImplicit false

namespace LedgerSchema

inductive Value where
  | null
  | string (s : String)
  | long (n : Int64)
  | integer (n : Int32)
  | double (x : Binary64)
  | dateTime (t : Instant)
  | boolean (b : Bool)
  | enum (constant : String)
  | list (items : List Value)
  | set (items : List Value)
  | array (items : List Value)
  | map (entries : List (String × Value))
  | resource (type : String) (fields : List (String × Value))

structure Resource where
  type : String
  fields : List (String × Value)

namespace Value

def isNull : Value → Bool
  | .null => true
  | _ => false

/-- The text of a string or of a constant. -/
def text? : Value → Option String
  | .string s | .enum s => some s
  | _ => none

def resource? : Value → Option Resource
  | .resource type fields => some ⟨type, fields⟩
  | _ => none

def typeName : Value → String
  | .null => "null"
  | .string _ => "String"
  | .long _ => "Long"
  | .integer _ => "Integer"
  | .double _ => "Double"
  | .dateTime _ => "DateTime"
  | .boolean _ => "Boolean"
  | .enum _ => "Enum"
  | .list _ => "List"
  | .set _ => "Set"
  | .array _ => "Array"
  | .map _ => "Map"
  | .resource type _ => type

end Value

def fieldValue (fields : List (String × Value)) (name : String) : Value :=
  (fields.lookup name).getD .null

def presentFields (fields : List (String × Value)) : List (String × Value) :=
  fields.filter (!·.2.isNull)

namespace Resource

def empty (type : String) : Resource := ⟨type, []⟩

def set (r : Resource) (name : String) (value : Value) : Resource :=
  { r with fields := insertKey name value r.fields }

def get (r : Resource) (name : String) : Value := fieldValue r.fields name

def toValue (r : Resource) : Value := .resource r.type r.fields

theorem get_set_self (r : Resource) (name : String) (value : Value) :
    (r.set name value).get name = value := by
  simp [set, get, fieldValue]

theorem get_set_ne (r : Resource) {name other : String} (h : other ≠ name) (value : Value) :
    (r.set name value).get other = r.get other := by
  simp [set, get, fieldValue, lookup_insertKey_ne h]

end Resource

end LedgerSchema
