import LedgerSchema.Json.Literal
import LedgerSchema.Value.Equality
import LedgerSchema.Wire.Encode

/-!
JSON nodes as values of a declared type. Null is a value of every type. The type of an object is the
one that its `$class` names, if that may stand for the declared type, and else the declared one. The
elements of a collection have a declared type only if that is a primitive or an enumeration; others
show what they are.
-/

set_option autoImplicit false

namespace LedgerSchema.Wire

/-- What a node is read as: a declared type, with the element type beside it, or an element of a
collection without a declared type. -/
inductive Target where
  | typed (type : FieldType) (element : Option FieldType)
  | untyped

def elementTarget (r : Registry) : Option FieldType → Target
  | some (.primitive p) => .typed (.primitive p) none
  | some (.named name) =>
    match r.resolve name with
    | .enum _ => .typed (.named name) none
    | _ => .untyped
  | _ => .untyped

abbrev Decoder := Target → Except WireError Value

def narrowest (n : JsonNumber) : Value :=
  match n.int64? with
  | some i =>
    match int32OfInt? i.toInt with
    | some small => .integer small
    | none => .long i
  | none => .double n.toBinary64

def entryText (name : String) (entry : Json) : Except WireError String :=
  match entry.member? name with
  | some (.string s) => .ok s
  | some (.number n) => .ok n.text
  | some (.bool b) => .ok (boolText b)
  | _ => .error (.mismatch (.missingEntryText name entry))

def readEntry (entry : Json) : Except WireError (String × Value) := do
  let key ← entryText "key" entry
  let text ← entryText "value" entry
  pure (key, .string text)

/-- A map is an array of entries; the last of several entries for one key wins. -/
def readMap : Json → Except WireError Value
  | .array entries => (entries.mapM readEntry).map fun es => .map (mapOfList es)
  | node => .error (.mismatch (.notMap node))

def readObject (r : Registry) (type : String) (members : List (String × Decoder)) :
    Except WireError Value :=
  match r.type? type with
  | none => .error (.unknownType type)
  | some d =>
    if !d.constructible then .error (.notConstructible type)
    else do
      let fields ← (r.wireFields type).mapM fun f =>
        match members.lookup f.name with
        | some decoder => do
          let v ← decoder (.typed f.type f.element)
          pure (f.name, v)
        | none => pure (f.name, Value.null)
      pure (.resource type (mapOfList fields))

def objectType (r : Registry) (declared : String) (object : List (String × Json)) : String :=
  match object.lookup typeMember with
  | some (.string tag) => if r.isAssignable declared tag then tag else declared
  | _ => declared

def readConstant (e : EnumDecl) (type : String) : Json → Except WireError Value
  | .string s =>
    if e.constants.contains s then .ok (.enum s)
    else .error (.mismatch (.notConstant type (.string s)))
  | node => .error (.mismatch (.notConstant type node))

def readNamed (r : Registry) (type : String) (node : Json) (members : List (String × Decoder)) :
    Except WireError Value :=
  match r.resolve type with
  | .enum e => readConstant e type node
  | _ =>
    match node with
    | .string text => do
      match ← ofReference r text with
      | some x => pure x.toValue
      | none => throw (.mismatch (.notReference type text))
    | .object object => readObject r (objectType r type object) members
    | node => .error (.mismatch (.notObject type node))

def readUntyped (r : Registry) (node : Json) (members : List (String × Decoder)) :
    Except WireError Value :=
  match node with
  | .null => .ok .null
  | .bool b => .ok (.boolean b)
  | .number n => .ok (narrowest n)
  | .string text => (ofReference r text).map fun x => x.elim (.string text) Resource.toValue
  | .array _ => .error (.mismatch (.nestedArray node))
  | .object object =>
    match object.lookup typeMember with
    | none => .error (.missingType node)
    | some tag =>
      let type := tag.string?.getD ""
      match r.resolve type with
      | .type _ => readNamed r type node members
      | _ => .error (.unknownElementType type node)

def collect (kind : CollectionKind) (items : List Value) : Value :=
  match kind with
  | .set => .set (setOfList items)
  | _ => .list items

def read (r : Registry) (node : Json) (items : Target → Except WireError (List Value))
    (members : List (String × Decoder)) : Decoder
  | .untyped => readUntyped r node members
  | .typed type element =>
    match node, type with
    | .null, _ => .ok .null
    | node, .primitive p => readPrimitive p node
    | .array _, .collection (.other name) => .error (.unsupportedCollection name)
    | .array _, .collection kind => (items (elementTarget r element)).map (collect kind)
    | node, .collection kind => .error (.mismatch (.notCollection kind node))
    | .array _, .array component => (items (.typed component none)).map .array
    | node, .array component => .error (.mismatch (.notArray (.array component) node))
    | node, .map => readMap node
    | node, .named name => readNamed r name node members

mutual

def decode (r : Registry) : Json → Decoder
  | .array nodes, target => read r (.array nodes) (fun t => decodeItems r nodes t) [] target
  | .object nodes, target => read r (.object nodes) (fun _ => .ok []) (decoders r nodes) target
  | node, target => read r node (fun _ => .ok []) [] target
termination_by structural node => node

def decodeItems (r : Registry) : List Json → Target → Except WireError (List Value)
  | [], _ => .ok []
  | node :: rest, target => do
    let v ← decode r node target
    let vs ← decodeItems r rest target
    pure (v :: vs)
termination_by structural nodes => nodes

def decoders (r : Registry) : List (String × Json) → List (String × Decoder)
  | [] => []
  | (name, node) :: rest => (name, fun target => decode r node target) :: decoders r rest
termination_by structural nodes => nodes

end

def ofJson (r : Registry) (node : Json) (type : FieldType) : Except WireError Value :=
  decode r node (.typed type none)

def ofText (r : Registry) (text : String) (type : FieldType) : Except WireError Value :=
  match Json.ofText? text with
  | some node => ofJson r node type
  | none => .error (.malformed text)

def itemsOfText (r : Registry) (text type : String) : Except WireError (List Value) := do
  match ← ofText r text (.array (.named type)) with
  | .array items => pure items
  | v => throw (.mismatch (.notItems type v.typeName))

end LedgerSchema.Wire
