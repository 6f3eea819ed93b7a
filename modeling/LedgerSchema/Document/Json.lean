import LedgerSchema.Document.Format
import LedgerSchema.Json.Literal

/-!
Descriptor documents in JSON. Records other than fields may also be arrays of their members in
declared order, and words may be keys of an object with one null member.
-/

set_option autoImplicit false

namespace LedgerSchema

namespace JsonLiteral

def text? : JsonLiteral → Option String
  | .string s => s
  | _ => none

def flag? : JsonLiteral → Option Bool
  | .bool b => some b
  | _ => none

def array? : JsonLiteral → Option (List JsonLiteral)
  | .array items => some items
  | _ => none

def isNull : JsonLiteral → Bool
  | .null => true
  | _ => false

def word? : JsonLiteral → Option String
  | .string s => s
  | .object [(name, .null)] => name
  | _ => none

def nullableText? : JsonLiteral → Option (Option String)
  | .null => some none
  | .string s => s.map some
  | _ => none

/-- The members of an object, if all their names are whole characters. -/
def namedMembers? : JsonLiteral → Option (List (String × JsonLiteral))
  | .object members => members.mapM fun m => m.1.map fun name => (name, m.2)
  | _ => none

/-- An object, or an array of the first members in the order of the keys. -/
def record? (known : List String) : JsonLiteral → Option (List (String × JsonLiteral))
  | .array items => if items.length ≤ known.length then some (known.zip items) else none
  | node => (namedMembers? node).bind (knownMembers? known)

/-- How many arrays and objects are open around the members of a field. -/
def fieldDepth : Nat := 5

/-- Fields are objects, and even their unknown members have to have a node. -/
def fieldRecord? (known : List String) (node : JsonLiteral) :
    Option (List (String × JsonLiteral)) :=
  (namedMembers? node).bind fun ms =>
    if ms.all fun m => (m.2.node? (Json.maxDepth - fieldDepth)).isSome then knownMembers? known ms
    else none

def format : DocumentFormat Option JsonLiteral where
  text := text?
  flag := flag?
  items := array?
  word := word?
  present node := some (if node.isNull then none else some node)
  switch := flag?
  modifier := nullableText?
  record := record?
  fieldRecord := fieldRecord?

end JsonLiteral

def Document.ofJson? (text : String) : Option Document :=
  (JsonLiteral.ofText? text).bind JsonLiteral.format.document

end LedgerSchema
