import LedgerSchema.Schema.Part

/-!
The text of the schema in the modelling language, and the text of the query file.
-/

set_option autoImplicit false

namespace LedgerSchema

/-- The line of a field. Its modifiers are written in the order default, range, regex. -/
def SchemaField.line (f : SchemaField) : String :=
  let modifier (key : String) (value : Option String) : String :=
    value.elim "" fun v => s!"{key}={v} "
  "\t" ++ (if f.isReference then "--> " else "o ") ++ f.label ++ " " ++ f.name ++ " " ++
    (if f.optional then "optional " else "") ++
    modifier "default" f.default ++ modifier "range" f.range ++ modifier "regex" f.regex ++ "\n"

/-- What the head of a block says about the identity of instances. -/
inductive IdentityClause where
  | absent
  | ownKey (name : String)
  | parent (name : String)
  deriving DecidableEq

def IdentityClause.text : IdentityClause → String
  | .absent => ""
  | .ownKey name => s!" identified by {name}"
  | .parent name => s!" extends {name}"

namespace Model

/-- A key of its own goes before a parent, except that concepts, events and transactions have no key
to go by. -/
def identityClause (m : Model) : IdentityClause :=
  match m.kind, m.key, m.parent with
  | .asset, some key, _ | .participant, some key, _ => .ownKey key.name
  | _, _, some parent => .parent parent.name
  | _, _, none => .absent

def text (m : Model) : Except SchemaError String :=
  m.validate.map fun _ =>
    m.kind.keyword ++ " " ++ m.name ++ m.identityClause.text ++ " \x7b\n" ++
      String.join (m.fields.map (·.line)) ++ "\x7d\n"

end Model

def EnumDecl.text (e : EnumDecl) : String :=
  s!"enum {e.name} \x7b\n" ++ String.join (e.constants.map fun c => s!"\to {c}\n") ++ "\x7d\n"

def SchemaEntity.text : SchemaEntity → Except SchemaError String
  | .model m => m.text
  | .enum e => .ok e.text

/-- The file of a part: the namespace, the imports, and each entity after an empty line. -/
def Part.text (p : Part) : Except SchemaError String := do
  let blocks ← p.entities.mapM (·.text)
  pure (s!"namespace {p.ns}\n" ++ String.join (p.imports.map fun name => s!"import {name}\n") ++
    String.join (blocks.map ("\n" ++ ·)))

def Query.text (number : Nat) (q : Query) : String :=
  s!"query Q{number} \x7b\n\tdescription: \"{q.description}\"\n" ++
    s!"\tstatement: {q.statement}\n\x7d\n\n"

def queriesText (queries : List Query) : String :=
  String.join (queries.mapIdx Query.text)

end LedgerSchema
