import LedgerSchema.FieldType
import LedgerSchema.Kind
import LedgerSchema.Name

/-!
Declarations: fields, types, enumerations and queries. Only marked fields belong to the schema and
to the wire format. A data field carries its value and may have modifiers; a pointer refers to a
resource by its key.
-/

set_option autoImplicit false

namespace LedgerSchema

inductive Marker where
  | data
  | pointer
  deriving DecidableEq

def Marker.keyword : Marker → String
  | .data => "data"
  | .pointer => "pointer"

def Marker.ofKeyword? (word : String) : Option Marker :=
  [data, pointer].find? (·.keyword = word)

/-- A declared field. The element type is the one of a collection. -/
structure Field where
  name : String
  type : FieldType
  marker : Option Marker := none
  primary : Bool := false
  optional : Bool := false
  embedded : Bool := true
  regex : Option String := none
  range : Option String := none
  default : Option String := none
  element : Option FieldType := none
  deriving DecidableEq

namespace Field

def data (name : String) (type : FieldType) : Field := { name, type, marker := some .data }

def pointer (name : String) (type : FieldType) : Field :=
  { name, type, marker := some .pointer, embedded := false }

def plain (name : String) (type : FieldType) : Field := { name, type }

def isMarked (f : Field) : Bool := f.marker.isSome

def isPointer (f : Field) : Bool := f.marker == some .pointer

def isData (f : Field) : Bool := f.marker == some .data

/-- Only data fields can be the key. -/
def isPrimary (f : Field) : Bool := f.isData && f.primary

def isOptional (f : Field) : Bool := f.isMarked && f.optional

/-- Pointers are never embedded. -/
def isEmbedded (f : Field) : Bool := f.isData && f.embedded

/-- Modifiers belong to data fields, and an empty one is none. -/
def modifier? (f : Field) (value : Option String) : Option String :=
  if f.isData then value.filter (· ≠ "") else none

def regex? (f : Field) : Option String := f.modifier? f.regex

def range? (f : Field) : Option String := f.modifier? f.range

def default? (f : Field) : Option String := f.modifier? f.default

theorem isMarked_of_isPrimary {f : Field} (h : f.isPrimary = true) : f.isMarked = true := by
  simp only [isPrimary, isData, Bool.and_eq_true, beq_iff_eq] at h
  simp [isMarked, h.1]

end Field

/-- A declared type. A type without a kind is plain: it is no resource. -/
structure TypeDecl where
  ns : String
  name : String
  kind : Option Kind := none
  parent : Option String := none
  fields : List Field := []
  constructible : Bool := true
  deriving DecidableEq

namespace TypeDecl

def qualifiedName (d : TypeDecl) : String := LedgerSchema.qualifiedName d.ns d.name

def markedFields (d : TypeDecl) : List Field := d.fields.filter (·.isMarked)

/-- The concept that stands for an entry of a map: a key and a value, both strings. -/
def entry : TypeDecl where
  ns := entryNamespace
  name := "Entry"
  kind := some .concept
  fields := [.data "key" (.primitive .string), .data "value" (.primitive .string)]

theorem qualifiedName_entry : entry.qualifiedName = entryName := by decide

end TypeDecl

structure EnumDecl where
  ns : String
  name : String
  constants : List String
  deriving DecidableEq

def EnumDecl.qualifiedName (e : EnumDecl) : String := LedgerSchema.qualifiedName e.ns e.name

structure Query where
  description : String
  statement : String
  deriving DecidableEq

end LedgerSchema
