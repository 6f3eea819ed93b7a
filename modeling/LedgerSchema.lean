import LedgerSchema.Archive.Basic
import LedgerSchema.Archive.Config
import LedgerSchema.Archive.ConfigText
import LedgerSchema.Archive.Network
import LedgerSchema.Archive.Permissions
import LedgerSchema.Archive.Writer
import LedgerSchema.Declaration
import LedgerSchema.Document.Format
import LedgerSchema.Document.Json
import LedgerSchema.Document.Load
import LedgerSchema.Document.Yaml
import LedgerSchema.FieldType
import LedgerSchema.Identifier
import LedgerSchema.Instant.Basic
import LedgerSchema.Instant.Calendar
import LedgerSchema.Instant.Text
import LedgerSchema.Json.Basic
import LedgerSchema.Json.Literal
import LedgerSchema.Json.Printer
import LedgerSchema.KeyMap
import LedgerSchema.Kind
import LedgerSchema.Name
import LedgerSchema.Number.Binary64
import LedgerSchema.Number.Shortest
import LedgerSchema.Number.Text
import LedgerSchema.Path
import LedgerSchema.Proofs.Instant.Calendar
import LedgerSchema.Proofs.Instant.Text
import LedgerSchema.Proofs.KeyMap
import LedgerSchema.Proofs.Number.Digits
import LedgerSchema.Proofs.Number.DoubleText
import LedgerSchema.Proofs.Number.Rounding
import LedgerSchema.Proofs.Number.Shortest
import LedgerSchema.Proofs.Value.Set
import LedgerSchema.Proofs.Value.Structure
import LedgerSchema.Registry.Basic
import LedgerSchema.Registry.Inheritance
import LedgerSchema.Registry.Lineage
import LedgerSchema.Schema.Error
import LedgerSchema.Schema.Field
import LedgerSchema.Schema.Model
import LedgerSchema.Schema.Part
import LedgerSchema.Schema.Reflection
import LedgerSchema.Schema.Text
import LedgerSchema.Text.Alphanumeric
import LedgerSchema.Text.Blank
import LedgerSchema.Text.Hex
import LedgerSchema.Toml.Document
import LedgerSchema.Toml.Scalar
import LedgerSchema.Toml.Table
import LedgerSchema.Toml.Text
import LedgerSchema.Value.Basic
import LedgerSchema.Value.Equality
import LedgerSchema.Wire.Decode
import LedgerSchema.Wire.Encode
import LedgerSchema.Wire.Error
import LedgerSchema.Wire.Reference
import LedgerSchema.Yaml.Node
import LedgerSchema.Yaml.Resolution
import LedgerSchema.Yaml.Scalar.Block
import LedgerSchema.Yaml.Scalar.Folding
import LedgerSchema.Yaml.Scalar.Plain
import LedgerSchema.Yaml.Scalar.Quoted
import LedgerSchema.Yaml.Tag
import LedgerSchema.Yaml.Text
import LedgerSchema.Yaml.Token
import LedgerSchema.Proofs.Wire.Reference
import LedgerSchema.Proofs.Registry.Lineage
import LedgerSchema.Proofs.Document.Load
import LedgerSchema.Proofs.Registry.Cycles
import LedgerSchema.Proofs.Schema.Extends
import LedgerSchema.Proofs.Schema.Marker
import LedgerSchema.Proofs.Wire.Codec
import LedgerSchema.Proofs.Wire.RoundTrip
import LedgerSchema.Proofs.Wire.Soundness
import LedgerSchema.Proofs.Registry.Assignability
import LedgerSchema.Proofs.Schema.Exclusion
import LedgerSchema.Proofs.Schema.ImportTargets
import LedgerSchema.Proofs.Schema.WrittenNames
import LedgerSchema.Proofs.Schema.Agreement
import LedgerSchema.Proofs.Archive.Assembly
import LedgerSchema.Proofs.Wire.InPlace
import LedgerSchema.Proofs.Wire.Place
import LedgerSchema.Proofs.Wire.Stability
import LedgerSchema.Proofs.Wire.Visibility
import LedgerSchema.Proofs.Wire.Keys
import LedgerSchema.Proofs.Schema.Dependencies
import LedgerSchema.Proofs.Value.Equivalence
import LedgerSchema.Proofs.Schema.Calls
import LedgerSchema.Proofs.Text.Blank
import LedgerSchema.Proofs.FieldType
import LedgerSchema.Proofs.Text.Layout
import LedgerSchema.Proofs.Schema.Outline
import LedgerSchema.Proofs.Schema.Rendering
import LedgerSchema.Proofs.Schema.DeclaredFields
import LedgerSchema.Proofs.Value.Insertion
import LedgerSchema.Proofs.Instant.Range
import LedgerSchema.Proofs.Wire.Instants
import LedgerSchema.Proofs.Schema.ValidNames
import LedgerSchema.Proofs.Registry.Components
import LedgerSchema.Proofs.Schema.FirstCycle
import LedgerSchema.Proofs.Schema.Queries
import LedgerSchema.Proofs.Archive.Writer
import LedgerSchema.Proofs.Registry.Table
