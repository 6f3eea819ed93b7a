import LedgerSchema.Archive.Config
import LedgerSchema.Toml.Document

/-!
Configurations in TOML. Keys that are left out keep their defaults, and unknown keys are ignored.
-/

set_option autoImplicit false

namespace LedgerSchema

namespace Toml

def Value.string? : Value → Option String
  | .string s => some s
  | _ => none

def Item.string? : Item → Option String
  | .value v => v.string?
  | _ => none

def Item.strings? : Item → Option (List String)
  | .value (.array items) => items.mapM Value.string?
  | .tables [] => some []
  | _ => none

end Toml

inductive ConfigError where
  | malformed
  | noSuchFile
  deriving DecidableEq

namespace NetworkConfig

def entryOr {α : Type} (entries : Toml.Entries) (key : String) (read : Toml.Item → Option α)
    (default : α) : Option α :=
  match entries.lookup key with
  | some item => read item
  | none => some default

def ofEntries? (entries : Toml.Entries) : Option NetworkConfig := do
  let base : NetworkConfig := {}
  pure {
    name := ← entryOr entries "name" Toml.Item.string? base.name
    version := ← entryOr entries "version" Toml.Item.string? base.version
    description := ← entryOr entries "description" Toml.Item.string? base.description
    excluded := ← entryOr entries "excludedNamespaces" Toml.Item.strings? base.excluded }

def ofText (text : String) : Except ConfigError NetworkConfig :=
  match (Toml.ofText? text).bind ofEntries? with
  | some c => .ok c
  | none => .error .malformed

/-- The configuration in a file; `none` stands for a file that does not exist. -/
def ofFile : Option String → Except ConfigError NetworkConfig
  | some text => ofText text
  | none => .error .noSuchFile

end NetworkConfig

end LedgerSchema
