import LedgerSchema.Declaration

/-!
Descriptor documents: the declarations that a text can hold, and how they are read off the tree of
the text. Trees of different formats differ in which of their nodes stand for a text, a flag, a list
or a record; a format says so, and the rest is the same for all of them. Unknown keys are ignored,
and a known key is there at most once.
-/

set_option autoImplicit false

namespace LedgerSchema

structure Document where
  types : List TypeDecl := []
  enums : List EnumDecl := []
  queries : List Query := []
  deriving DecidableEq

/-- How the nodes of a text format stand for the parts of a document. What is counted while nodes
are read is up to the format. -/
structure DocumentFormat (Reading : Type → Type) (Node : Type) where
  text : Node → Reading String
  flag : Node → Reading Bool
  items : Node → Reading (List Node)
  word : Node → Reading String
  /-- The node in the place of a text or of a word, unless it stands for a missing value. -/
  present : Node → Reading (Option Node)
  switch : Node → Reading Bool
  modifier : Node → Reading (Option String)
  /-- The members under the given keys, which may also be given by position. -/
  record : List String → Node → Reading (List (String × Node))
  fieldRecord : List String → Node → Reading (List (String × Node))

/-- The members with a known key, if no known key is repeated. -/
def knownMembers? {Node : Type} (known : List String) (members : List (String × Node)) :
    Option (List (String × Node)) :=
  let found := members.filter fun m => known.contains m.1
  if (found.map (·.1)).Nodup then some found else none

namespace DocumentFormat

variable {Reading : Type → Type} [Monad Reading] [MonadLiftT Option Reading] {Node : Type}
  (F : DocumentFormat Reading Node)

def orElse {α : Type} (members : List (String × Node)) (key : String) (read : Node → Reading α)
    (absent : α) : Reading α :=
  match members.lookup key with
  | some node => read node
  | none => pure absent

def required {α : Type} (members : List (String × Node)) (key : String)
    (read : Node → Reading α) : Reading α := liftM (members.lookup key) >>= read

def nullable {α : Type} (read : Node → Reading α) (node : Node) : Reading (Option α) := do
  match ← F.present node with
  | some node => some <$> read node
  | none => pure none

def list {α : Type} (read : Node → Reading α) (node : Node) : Reading (List α) := do
  (← F.items node).mapM read

def kind (node : Node) : Reading Kind := do liftM (Kind.ofKeyword? (← F.word node))

def marker (node : Node) : Reading Marker := do liftM (Marker.ofKeyword? (← F.word node))

def ofFieldText (text : String) : Reading FieldType := liftM (FieldType.ofText text).toOption

def fieldType (node : Node) : Reading FieldType := F.text node >>= ofFieldText

def element (node : Node) : Reading (Option FieldType) := do
  match ← F.modifier node with
  | some text => some <$> ofFieldText text
  | none => pure none

def fieldKeys : List String :=
  ["name", "type", "marker", "primary", "optional", "embedded", "regex", "range", "defaultValue",
    "genericType"]

def field (node : Node) : Reading Field := do
  let ms ← F.fieldRecord fieldKeys node
  pure {
    name := ← required ms "name" F.text
    type := ← required ms "type" F.fieldType
    marker := ← orElse ms "marker" (F.nullable F.marker) none
    primary := ← orElse ms "primary" F.switch false
    optional := ← orElse ms "optional" F.switch false
    embedded := ← orElse ms "embedded" F.switch true
    regex := ← orElse ms "regex" F.modifier none
    range := ← orElse ms "range" F.modifier none
    default := ← orElse ms "defaultValue" F.modifier none
    element := ← orElse ms "genericType" F.element none }

def type (node : Node) : Reading TypeDecl := do
  let ms ← F.record ["namespace", "name", "kind", "parent", "fields", "constructible"] node
  pure {
    ns := ← required ms "namespace" F.text
    name := ← required ms "name" F.text
    kind := ← orElse ms "kind" (F.nullable F.kind) none
    parent := ← orElse ms "parent" (F.nullable F.text) none
    fields := ← orElse ms "fields" (F.list F.field) []
    constructible := ← orElse ms "constructible" F.flag true }

def enum (node : Node) : Reading EnumDecl := do
  let ms ← F.record ["namespace", "name", "constants"] node
  pure {
    ns := ← required ms "namespace" F.text
    name := ← required ms "name" F.text
    constants := ← required ms "constants" (F.list F.text) }

def query (node : Node) : Reading Query := do
  let ms ← F.record ["description", "statement"] node
  pure {
    description := ← required ms "description" F.text
    statement := ← required ms "statement" F.text }

def document (node : Node) : Reading Document := do
  let ms ← F.record ["types", "enums", "queries"] node
  pure {
    types := ← orElse ms "types" (F.list F.type) []
    enums := ← orElse ms "enums" (F.list F.enum) []
    queries := ← orElse ms "queries" (F.list F.query) [] }

end DocumentFormat

end LedgerSchema
