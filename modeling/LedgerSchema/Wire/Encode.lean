import LedgerSchema.Wire.Reference

/-!
Values as JSON nodes. A resource is written in place, as an object with its type under `$class`, or
as a reference by key. In place are the outermost one, those in embedded fields, and those whose
kind has no identity.
-/

set_option autoImplicit false

namespace LedgerSchema

def firstOfEachName : List Field → List Field
  | [] => []
  | f :: rest => f :: (firstOfEachName rest).filter (·.name ≠ f.name)

/-- The fields that an instance has on the wire: the nearest marked field of each name. -/
def Registry.wireFields (r : Registry) (type : String) : List Field :=
  firstOfEachName (r.markedFields type)

namespace Wire

def typeMember : String := "$class"

def entryNode (key text : String) : Json :=
  .object (mapOfList
    [("key", .string key), ("value", .string text), (typeMember, .string entryName)])

def encodeEntry (key : String) : Value → Except WireError Json
  | .string text => .ok (entryNode key text)
  | v => .error (.nonStringMapValue key v.typeName)

def encodeDouble (x : Binary64) : Except WireError Json :=
  if x.isFinite then .ok (.number (.double x))
  else .error (.unsupportedType s!"Double({doubleText x})")

/-- How a member is written, given whether resources in it are written in place. -/
abbrev Encoder := Bool → Except WireError Json

def encodeObject (r : Registry) (type : String) (members : List (String × Encoder)) :
    Except WireError Json := do
  let nodes ← (r.wireFields type).mapM fun f =>
    match members.lookup f.name with
    | some encoder => do
      let node ← encoder f.isEmbedded
      pure (f.name, node)
    | none => pure (f.name, Json.null)
  pure (.object (insertKey typeMember (.string type) (mapOfList nodes)))

def encodeResource (r : Registry) (x : Resource) (members : List (String × Encoder)) : Encoder :=
  fun inPlace =>
    match (r.type? x.type).bind (·.kind) with
    | none => .error (.unsupportedType x.type)
    | some kind =>
      if inPlace || kind.alwaysEmbedded then encodeObject r x.type members
      else (reference r x).map .string

mutual

def encode (r : Registry) : Value → Encoder
  | .null, _ => .ok .null
  | .string s, _ | .enum s, _ => .ok (.string s)
  | .long n, _ => .ok (.int n.toInt)
  | .integer n, _ => .ok (.int n.toInt)
  | .double x, _ => encodeDouble x
  | .dateTime t, _ => .ok (.string (.ofList t.text))
  | .boolean b, _ => .ok (.bool b)
  | .list items, inPlace | .set items, inPlace | .array items, inPlace =>
    (encodeItems r items inPlace).map .array
  | .map entries, _ => (entries.mapM fun e => encodeEntry e.1 e.2).map .array
  | .resource type fields, inPlace =>
    encodeResource r ⟨type, fields⟩ (encoders r fields) inPlace
termination_by structural v => v

def encodeItems (r : Registry) : List Value → Bool → Except WireError (List Json)
  | [], _ => .ok []
  | v :: rest, inPlace => do
    let node ← encode r v inPlace
    let nodes ← encodeItems r rest inPlace
    pure (node :: nodes)
termination_by structural items => items

def encoders (r : Registry) : List (String × Value) → List (String × Encoder)
  | [] => []
  | (name, v) :: rest => (name, fun inPlace => encode r v inPlace) :: encoders r rest
termination_by structural fields => fields

end

/-- The node of a value; an outermost resource is written in place. -/
def toJson (r : Registry) (v : Value) : Except WireError Json := encode r v true

end Wire

end LedgerSchema
