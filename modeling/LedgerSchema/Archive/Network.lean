import LedgerSchema.Archive.Config
import LedgerSchema.Archive.Permissions
import LedgerSchema.Archive.Writer
import LedgerSchema.Json.Printer
import LedgerSchema.Path
import LedgerSchema.Schema.Reflection
import LedgerSchema.Schema.Text

/-!
Business network archives: the schema files, the query file if there are queries, the manifest and
the permissions, in this order. All of it is known before the first entry is written.
-/

set_option autoImplicit false

namespace LedgerSchema

structure Manifest where
  name : String
  version : String
  description : String
  deriving DecidableEq

def Manifest.text (m : Manifest) : String :=
  let member (name value : String) : String := "  " ++ quoted name ++ ": " ++ quoted value
  "\x7b\n" ++ ",\n".intercalate [member "name" m.name, member "version" m.version,
    member "description" m.description] ++ "\n\x7d"

inductive NetworkPart where
  | schema (p : Part)
  | queries (qs : List Query)
  | manifest (m : Manifest)
  | permissions
  deriving DecidableEq

namespace NetworkPart

def fileName : NetworkPart → String
  | .schema p => p.fileName
  | .queries _ => "queries.qry"
  | .manifest _ => "package.json"
  | .permissions => "permissions.acl"

def text : NetworkPart → Except SchemaError String
  | .schema p => p.text
  | .queries qs => .ok (queriesText qs)
  | .manifest m => .ok m.text
  | .permissions => .ok permissionsText

def toArchivePart (p : NetworkPart) : ArchivePart where
  fileName := p.fileName
  text := p.text.mapError .schema

end NetworkPart

def networkParts (r : Registry) (c : NetworkConfig) : Except SchemaError (List NetworkPart) := do
  let parts ← r.reflect c.excluded
  let queries ← r.reflectQueries
  pure (parts.map .schema ++ (if queries.isEmpty then [] else [.queries queries]) ++
    [.manifest ⟨c.name, c.version, c.description⟩, .permissions])

/-- Writes the archive of a registry to where its files are stored, and reports the names of the
entries. All parts are there before the writer is. -/
def generate {σ : Type} (container : Container σ) (store : σ) (r : Registry) (c : NetworkConfig) :
    σ × Except GenerationError (List String) :=
  match networkParts r c with
  | .error e => (store, .error (.schema e))
  | .ok parts =>
    match (ArchiveWriter.new store).addParts container (parts.map (·.toArchivePart)) with
    | (w, .ok ()) => (w.store, .ok w.entries)
    | (w, .error e) => (w.store, .error e)

structure NetworkArchive where
  entries : List String
  files : List (String × String)
  deriving DecidableEq

def networkArchive (r : Registry) (c : NetworkConfig) : Except GenerationError NetworkArchive :=
  match generate listedFiles [] r c with
  | (store, .ok entries) => .ok ⟨entries, listedFiles.files store⟩
  | (_, .error e) => .error e

/-- The archive of a registry as a file. The file is made first, whatever is to be written. -/
def networkFile (r : Registry) (c : NetworkConfig) (path : String) :
    Except GenerationError NetworkArchive :=
  if Path.isCreatable path then networkArchive r c else .error (.noSuchDirectory path)

end LedgerSchema
