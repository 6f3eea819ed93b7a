import LedgerSchema.Document.Json
import LedgerSchema.Identifier
import LedgerSchema.Registry.Inheritance

/-!
Registries from descriptor documents. All names that a document declares are checked before the
first of them is registered.
-/

set_option autoImplicit false

namespace LedgerSchema

/-- A name that a declaration may not have. -/
structure DeclarationError where
  item : String
  cause : IdentifierError
  deriving DecidableEq

def DeclarationError.message (e : DeclarationError) : String :=
  s!"invalid declaration {e.item}: {e.cause.message}"

inductive LoadError where
  | json
  | yaml
  | noSuchFile
  | invalid (e : DeclarationError)
  deriving DecidableEq

namespace Document

def check (item : String) (result : Except IdentifierError Unit) : Except DeclarationError Unit :=
  result.mapError (⟨item, ·⟩)

def checkName (ns name : String) : Except DeclarationError Unit := do
  check (qualifiedName ns name) (checkNamespace ns)
  check (qualifiedName ns name) (checkTypeName name)

def checkType (d : TypeDecl) : Except DeclarationError Unit := do
  checkName d.ns d.name
  d.fields.forM fun f => check s!"{d.qualifiedName}.{f.name}" (checkFieldName f.name)

/-- The names of types are checked before those of enumerations. -/
def checkNames (doc : Document) : Except DeclarationError Unit := do
  doc.types.forM checkType
  doc.enums.forM fun e => checkName e.ns e.name

/-- The registry of a document, on top of the map entry concept. -/
def toRegistry (doc : Document) : Registry :=
  doc.queries.foldl .addQuery (doc.enums.foldl .registerEnum (doc.types.foldl .register .standard))

def registrationWarnings {α : Type} (warn : Registry → α → List Registry.Warning)
    (add : Registry → α → Registry) (r : Registry) : List α → List Registry.Warning
  | [] => []
  | a :: rest => warn r a ++ registrationWarnings warn add (add r a) rest

/-- What is worth a warning in a document: declarations that are replaced, and parents that are not
registered. -/
def warnings (doc : Document) : List Registry.Warning :=
  registrationWarnings Registry.registerWarnings .register .standard doc.types ++
    registrationWarnings Registry.registerEnumWarnings .registerEnum
      (doc.types.foldl .register .standard) doc.enums ++
    doc.toRegistry.missingParents.map fun p => .missingParent p.1 p.2

structure Loaded where
  registry : Registry
  warnings : List Registry.Warning

def load (doc : Document) : Except DeclarationError Loaded :=
  doc.checkNames.map fun _ => ⟨doc.toRegistry, doc.warnings⟩

def loadOr (e : LoadError) : Option Document → Except LoadError Loaded
  | none => .error e
  | some doc => doc.load.mapError .invalid

def loadJson (text : String) : Except LoadError Loaded := loadOr .json (ofJson? text)

end Document

end LedgerSchema
