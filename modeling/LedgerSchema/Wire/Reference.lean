import LedgerSchema.Instant.Text
import LedgerSchema.Registry.Lineage
import LedgerSchema.Value.Basic
import LedgerSchema.Wire.Error

/-!
References by key. The text of a reference names a type and the key of an instance of it; the
instance that it stands for has that key and no other field.
-/

set_option autoImplicit false

namespace LedgerSchema.Wire

def referencePrefix : List Char := "resource:".toList

def referenceText (type key : String) : String := s!"resource:{type}#{key}"

/-- The type and the key that a reference names; the first `#` separates them, and neither of them
is empty. Other texts are no references. -/
def splitReference? (text : String) : Option (String × String) :=
  let s := text.toList
  if referencePrefix.isPrefixOf s then
    let s := s.drop referencePrefix.length
    let type := s.takeWhile (· ≠ '#')
    match s.dropWhile (· ≠ '#') with
    | _ :: key => if type = [] ∨ key = [] then none else some (.ofList type, .ofList key)
    | [] => none
  else none

def doubleText (x : Binary64) : String :=
  .ofList (if x.isFinite then x.finiteText jsonDoubles else x.specialText)

def keyText (type field : String) : Value → Except WireError String
  | .null => .error (.nullKey type field)
  | .string s | .enum s => .ok s
  | .long n => .ok (.ofList (intText n.toInt))
  | .integer n => .ok (.ofList (intText n.toInt))
  | .double x => .ok (doubleText x)
  | .boolean b => .ok (boolText b)
  | .dateTime t => .ok (.ofList t.text)
  | v => .error (.unsupportedType v.typeName)

def reference (r : Registry) (x : Resource) : Except WireError String :=
  match r.primaryField? x.type with
  | none => .error (.noKeyField x.type)
  | some f => (keyText x.type f.name (x.get f.name)).map (referenceText x.type)

def instant? : Json → Option Instant
  | .string s => Instant.ofText? s.toList
  | .number n => n.int64?.bind fun ms => Instant.ofMillis? ms.toInt
  | _ => none

def primitive? : Primitive → Json → Option Value
  | .string, .string s => some (.string s)
  | .string, .number n => some (.string n.text)
  | .string, .bool b => some (.string (boolText b))
  | .long, node => node.int64?.map .long
  | .integer, node => (node.int64?.bind fun n => int32OfInt? n.toInt).map .integer
  | .double, .number n => some (.double n.toBinary64)
  | .boolean, .bool b => some (.boolean b)
  | .dateTime, node => (instant? node).map .dateTime
  | _, _ => none

def readPrimitive (p : Primitive) (node : Json) : Except WireError Value :=
  match primitive? p node with
  | some v => .ok v
  | none => .error (.mismatch (.notPrimitive node p))

def primitiveOfText? (text : String) : Primitive → Option Value
  | .string => some (.string text)
  | .long => ((intOfText? text.toList).bind int64OfInt?).map .long
  | .integer => ((intOfText? text.toList).bind int32OfInt?).map .integer
  | .double => (Binary64.ofText? text.toList).map .double
  | .boolean => if text = "true" then some (.boolean true)
    else if text = "false" then some (.boolean false) else none
  | .dateTime => none

/-- The key value that a key text stands for. An instant is written as its node would be. -/
def keyOfText (text : String) (p : Primitive) : Except WireError Value :=
  match p with
  | .dateTime =>
    match (intOfText? text.toList).bind int64OfInt? with
    | some ms => readPrimitive .dateTime (.int ms.toInt)
    | none => readPrimitive .dateTime (.string text)
  | p =>
    match primitiveOfText? text p with
    | some v => .ok v
    | none => .error (.mismatch (.badKey text p))

def ofKey (r : Registry) (key type : String) : Except WireError Resource :=
  if isBlankText key then .error .emptyKey
  else
    match r.type? type with
    | none => .error (.unknownType type)
    | some d =>
      if !d.constructible then .error (.notConstructible type)
      else
        match r.primaryField? type with
        | none => .error (.noKeyField type)
        | some f =>
          match f.type with
          | .primitive p => (keyOfText key p).map ((Resource.empty type).set f.name)
          | _ => .ok ((Resource.empty type).set f.name (.string key))

/-- The instance that a reference stands for; `none` for a text that is no reference. -/
def ofReference (r : Registry) (text : String) : Except WireError (Option Resource) :=
  match splitReference? text with
  | none => .ok none
  | some (type, key) =>
    if (r.type? type).isNone then .error (.unresolvedReference text type)
    else (ofKey r key type).map some

end LedgerSchema.Wire
