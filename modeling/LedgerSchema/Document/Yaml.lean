import LedgerSchema.Document.Load
import LedgerSchema.Path
import LedgerSchema.Yaml.Resolution

/-!
Descriptor documents in YAML. A scalar is a text whatever else it could stand for, except in the
modifiers of a field, where only a scalar that stands for nothing else is one. A plain empty scalar
is an empty list or an empty record. Reading is limited in how many references it may follow.
-/

set_option autoImplicit false

namespace LedgerSchema

namespace Yaml

/-- Reading counts down the references that may still be followed. -/
abbrev Reading := StateT Nat Option

namespace Graph

variable (g : Graph)

/-- The node that a reference stands for; all other nodes stand for themselves. -/
def follow : Node → Reading Node
  | .reference anchor => do
    match ← get with
    | 0 => failure
    | left + 1 =>
      set left
      liftM (g.node? anchor)
  | node => pure node

def text (node : Node) : Reading String := do
  match ← g.follow node with
  | .scalar text _ _ => pure text
  | _ => failure

def flag (node : Node) : Reading Bool := do
  match ← g.follow node with
  | .scalar text style tag =>
    if style = .plain || (style = .literal && tag == some (Tag.core "bool")) then
      liftM (bool? text)
    else failure
  | _ => failure

def items (node : Node) : Reading (List Node) := do
  match ← g.follow node with
  | .sequence items _ => pure items
  | .scalar "" .plain _ => pure []
  | _ => failure

/-- The text of a scalar, or the name of the tag of one that stands for nothing. -/
def word (node : Node) : Reading String := do
  match ← g.follow node with
  | .scalar text style tag =>
    match tag.bind Tag.localName? with
    | some name =>
      if style = .plain && (text = "" || isNullWord text) then pure name else failure
    | none => pure text
  | _ => failure

/-- A plain scalar under the tag of null has to be null. -/
def present (node : Node) : Reading (Option Node) := do
  let node ← g.follow node
  match node with
  | .scalar text .plain tag =>
    if tag.isNone then pure (if text = "" || isNullWord text then none else some node)
    else if tag = some (.core "null") then (if isNullWord text then pure none else failure)
    else pure (some node)
  | _ => pure (some node)

def members (node : Node) : Reading (List (String × Node)) := do
  match ← g.follow node with
  | .mapping entries _ => entries.mapM fun e => do pure (← g.text e.1, e.2)
  | .scalar "" .plain _ => pure []
  | _ => failure

def record (known : List String) (node : Node) : Reading (List (String × Node)) := do
  liftM (knownMembers? known (← g.members node))

def isLocal (tag : Option Tag) : Bool := (tag.bind Tag.localName?).isSome

/-- Reads a node that may be of any form, which has to be nested no deeper than the given number of
collections, and whose scalars have to fit their tags. -/
def content : Nat → Node → Reading Node
  | depth, node => do
    let node ← g.follow node
    match node, depth with
    | .scalar text style tag, _ =>
      match meaning? text style tag with
      | some (.number true) | none => failure
      | _ => pure node
    | .sequence items tag, depth + 1 =>
      if isLocal tag then failure
      items.forM fun item => discard (content depth item)
      pure node
    | .mapping entries tag, depth + 1 =>
      if isLocal tag then failure
      entries.forM fun e => do
        discard (content depth e.1)
        discard (content depth e.2)
      pure node
    | _, _ => failure

/-- How many collections may be open at once around what a field holds. -/
def maxDepth : Nat := 123

/-- The keys of a field that are read in their own way; all others are read whatever they are. -/
def fieldHead : List String := ["name", "type", "marker"]

def fieldRecord (known : List String) (node : Node) : Reading (List (String × Node)) := do
  let ms ← (← g.members node).mapM fun m => do
    pure (m.1, ← if fieldHead.contains m.1 then pure m.2 else g.content maxDepth m.2)
  liftM (knownMembers? known ms)

end Graph

namespace Node

def switch? : Node → Option Bool
  | .scalar text style tag =>
    match meaning? text style tag with
    | some (.bool b) => some b
    | _ => none
  | _ => none

def modifier? : Node → Option (Option String)
  | .scalar text style tag =>
    match meaning? text style tag with
    | some .null => some none
    | some .text => some (some text)
    | _ => none
  | _ => none

end Node

def Graph.format (g : Graph) : DocumentFormat Reading Node where
  text := g.text
  flag := g.flag
  items := g.items
  word := g.word
  present := g.present
  switch node := liftM node.switch?
  modifier node := liftM node.modifier?
  record := g.record
  fieldRecord := g.fieldRecord

/-- How many references may be followed for each scalar, reference, and start or end of a collection
of a text. -/
def maxFollowed : Nat := 100

end Yaml

namespace Document

def ofYaml? (text : String) : Option Document :=
  (Yaml.Graph.ofText? text).bind fun g =>
    (g.format.document g.root).run' (Yaml.maxFollowed * g.root.size)

def loadYaml (text : String) : Except LoadError Loaded := loadOr .yaml (ofYaml? text)

/-- Files with the extension `json`, in any case, hold JSON; all others hold YAML. -/
def isJsonFile (path : String) : Bool :=
  (Path.extension? path).any fun e => e.toList.map Char.toLower == "json".toList

/-- Loads a file by its path; `none` stands for a file that does not exist. -/
def loadFile (path : String) : Option String → Except LoadError Loaded
  | none => .error .noSuchFile
  | some text =>
    if !Path.isCreatable path then .error .noSuchFile
    else if isJsonFile path then loadJson text
    else loadYaml text

end Document

end LedgerSchema
