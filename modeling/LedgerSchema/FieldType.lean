import LedgerSchema.Text.Alphanumeric
import LedgerSchema.Text.Blank

/-!
The types that a field can be declared with, and their compact text form: `String`, `Long[]`,
`List`, `Set`, `Collection:Queue`, `Map`, `org.acme.Car`.
-/

set_option autoImplicit false

namespace LedgerSchema

inductive Primitive where
  | string
  | long
  | integer
  | double
  | dateTime
  | boolean
  deriving DecidableEq

namespace Primitive

def label : Primitive → String
  | .string => "String"
  | .long => "Long"
  | .integer => "Integer"
  | .double => "Double"
  | .dateTime => "DateTime"
  | .boolean => "Boolean"

def all : List Primitive := [.string, .long, .integer, .double, .dateTime, .boolean]

def ofLabel? (label : String) : Option Primitive := all.find? (·.label = label)

theorem ofLabel?_label (p : Primitive) : ofLabel? p.label = some p := by cases p <;> decide

end Primitive

/-- Lists keep their order and sets drop repeats; other collections can be declared, not carried. -/
inductive CollectionKind where
  | list
  | set
  | other (name : String)
  deriving DecidableEq

def CollectionKind.name : CollectionKind → String
  | .list => "List"
  | .set => "Set"
  | .other name => name

/-- The element type of a collection is declared beside it; a map is from strings to strings. -/
inductive FieldType where
  | primitive (p : Primitive)
  | array (component : FieldType)
  | collection (kind : CollectionKind)
  | map
  | named (name : String)
  deriving DecidableEq

inductive FieldTypeError where
  | empty
  | missingCollectionName (text : String)
  | invalid (text : String)
  deriving DecidableEq

def FieldTypeError.message : FieldTypeError → String
  | .empty => "Empty field type"
  | .missingCollectionName text => s!"Missing collection name in field type: {text}"
  | .invalid text => s!"Invalid field type: {text}"

namespace FieldType

def isArray : FieldType → Bool
  | .array _ => true
  | _ => false

def component : FieldType → FieldType
  | .array t => t
  | t => t

def primitiveLabel? : FieldType → Option String
  | .primitive p => some p.label
  | .array (.primitive p) => some (p.label ++ "[]")
  | _ => none

def isPrimitive (t : FieldType) : Bool := t.primitiveLabel?.isSome

def text : FieldType → String
  | .primitive p => p.label
  | .array t => t.text ++ "[]"
  | .collection (.other name) => "Collection:" ++ name
  | .collection kind => kind.name
  | .map => "Map"
  | .named name => name

def isNameChar (c : Char) : Bool := isAlphanumeric c || c == '_' || c == '.' || c == '$'

def collectionPrefix : List Char := "Collection:".toList

/-- Reads a type that is no array from a text without white space around it. -/
def ofScalarText (text : String) : Except FieldTypeError FieldType :=
  match Primitive.ofLabel? text with
  | some p => .ok (.primitive p)
  | none =>
    if text = "List" then .ok (.collection .list)
    else if text = "Set" then .ok (.collection .set)
    else if text = "Map" then .ok .map
    else if collectionPrefix.isPrefixOf text.toList then
      let name := text.toList.drop collectionPrefix.length
      if name = [] then .error (.missingCollectionName text)
      else .ok (.collection (.other (.ofList name)))
    else if text.toList.all isNameChar then .ok (.named text)
    else .error (.invalid text)

def stripBrackets? (s : List Char) : Option (List Char) :=
  match s.reverse with
  | ']' :: '[' :: rest => some rest.reverse
  | _ => none

theorem eq_append_of_stripBrackets? {s r : List Char} (h : stripBrackets? s = some r) :
    s = r ++ ['[', ']'] := by
  unfold stripBrackets? at h
  split at h
  · rename_i rest hs
    rw [← List.reverse_reverse s, hs]
    simp_all
  · simp at h

/-- White space around the text and around the text of every component is ignored. -/
def ofChars (s : List Char) : Except FieldTypeError FieldType :=
  if trim s = [] then .error .empty
  else
    match _h : stripBrackets? (trim s) with
    | some r => (ofChars r).map .array
    | none => ofScalarText (.ofList (trim s))
termination_by s.length
decreasing_by
  have := length_trim_le s
  have := congrArg List.length (eq_append_of_stripBrackets? _h)
  simp at this
  omega

def ofText (text : String) : Except FieldTypeError FieldType := ofChars text.toList

end FieldType

end LedgerSchema
