import NetlinkSchema.Bundle
import NetlinkSchema.Bytes
import NetlinkSchema.Cbor.Field
import NetlinkSchema.Cbor.Item
import NetlinkSchema.Cbor.Reader
import NetlinkSchema.Codec.Enum
import NetlinkSchema.Codec.Flags
import NetlinkSchema.Codec.Layout
import NetlinkSchema.Codec.Lowering
import NetlinkSchema.Codec.Payload
import NetlinkSchema.CommandLine.Action
import NetlinkSchema.CommandLine.Command
import NetlinkSchema.CommandLine.Flag
import NetlinkSchema.CommandLine.Program
import NetlinkSchema.Compilation.Cycle
import NetlinkSchema.Compilation.Declaration
import NetlinkSchema.Compilation.Description
import NetlinkSchema.Compilation.Diagnostic
import NetlinkSchema.Compilation.Log
import NetlinkSchema.Compilation.Resolution
import NetlinkSchema.Compilation.Result
import NetlinkSchema.Config
import NetlinkSchema.Digest
import NetlinkSchema.Files
import NetlinkSchema.Float.Format
import NetlinkSchema.Float.Notation
import NetlinkSchema.Float.Shortest
import NetlinkSchema.GoSource.Constants
import NetlinkSchema.GoSource.Identifier
import NetlinkSchema.GoSource.Layout
import NetlinkSchema.Integer
import NetlinkSchema.Json.Comments
import NetlinkSchema.Json.Printer
import NetlinkSchema.Listing
import NetlinkSchema.Main
import NetlinkSchema.Manifest.Binary
import NetlinkSchema.Manifest.Document
import NetlinkSchema.Manifest.Listing
import NetlinkSchema.Manifest.Types
import NetlinkSchema.Proofs.Bytes
import NetlinkSchema.Schema.Document
import NetlinkSchema.Schema.Error
import NetlinkSchema.Schema.Types
import NetlinkSchema.Text
import NetlinkSchema.Text.Base64
import NetlinkSchema.Text.Casing
import NetlinkSchema.Text.Category
import NetlinkSchema.Text.Quoted
import NetlinkSchema.Value
import NetlinkSchema.Wire.Attribute
import NetlinkSchema.Wire.Error
import NetlinkSchema.Wire.Nested
import NetlinkSchema.Wire.Number
import NetlinkSchema.Wire.Scalar
import NetlinkSchema.Yaml.Cursor
import NetlinkSchema.Yaml.Decode
import NetlinkSchema.Yaml.Lexeme
import NetlinkSchema.Yaml.Node
import NetlinkSchema.Yaml.Record
import NetlinkSchema.Yaml.Scalar
import NetlinkSchema.Yaml.Token
import NetlinkSchema.Proofs.Object
import NetlinkSchema.Proofs.Outcome
import NetlinkSchema.Proofs.Stream
import NetlinkSchema.Proofs.Number
import NetlinkSchema.Proofs.Flags
import NetlinkSchema.Proofs.Enum
import NetlinkSchema.Proofs.Lowering
import NetlinkSchema.Proofs.Layout
import NetlinkSchema.Proofs.Outline
import NetlinkSchema.Proofs.Payload
import NetlinkSchema.Proofs.AttrSet
import NetlinkSchema.Proofs.Acceptance
import NetlinkSchema.Proofs.Resolution
import NetlinkSchema.Proofs.RoundTrip
import NetlinkSchema.Proofs.Cycle
import NetlinkSchema.Proofs.Containment
import NetlinkSchema.Proofs.ByName
import NetlinkSchema.Proofs.Termination
import NetlinkSchema.Proofs.Expression
import NetlinkSchema.Proofs.Description
import NetlinkSchema.Proofs.Alike
import NetlinkSchema.Proofs.Agreement
import NetlinkSchema.Proofs.Placement
import NetlinkSchema.Proofs.Order
import NetlinkSchema.Proofs.Exact
import NetlinkSchema.Proofs.Reordering
import NetlinkSchema.Proofs.WireFormat
import NetlinkSchema.Proofs.Lossless
import NetlinkSchema.Proofs.Listing
import NetlinkSchema.Proofs.Shape
import NetlinkSchema.Proofs.Validity
import NetlinkSchema.Proofs.Size
import NetlinkSchema.Proofs.CycleReport
import NetlinkSchema.Proofs.Conformance
import NetlinkSchema.Proofs.Cause
import NetlinkSchema.Proofs.Guard
import NetlinkSchema.Proofs.DerivedForms
import NetlinkSchema.Proofs.FoundCycles
import NetlinkSchema.Proofs.Framing
import NetlinkSchema.Proofs.Tiling
import NetlinkSchema.Proofs.Cbor
import NetlinkSchema.Proofs.Record
import NetlinkSchema.Proofs.RecordReading
import NetlinkSchema.Proofs.ManifestBytes
import NetlinkSchema.Proofs.Utf8
import NetlinkSchema.Proofs.ManifestReading
import NetlinkSchema.Proofs.ManifestRoundTrip
import NetlinkSchema.Proofs.Identifier
import NetlinkSchema.Proofs.CodeLines
import NetlinkSchema.Proofs.SourceCode
import NetlinkSchema.Proofs.Occurrence
import NetlinkSchema.Proofs.Buffer
import NetlinkSchema.Proofs.SameResult
import NetlinkSchema.Proofs.SamePayload
import NetlinkSchema.Proofs.Absent
import NetlinkSchema.Proofs.EntryOrder
import NetlinkSchema.Proofs.Width
import NetlinkSchema.Proofs.Slices
import NetlinkSchema.Proofs.Presence
import NetlinkSchema.Proofs.Quotation
import NetlinkSchema.Proofs.MachineType
import NetlinkSchema.Proofs.ExpressionReading
import NetlinkSchema.Proofs.SchemaReading
import NetlinkSchema.Proofs.Ambiguity
