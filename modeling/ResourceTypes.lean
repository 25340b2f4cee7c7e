import ResourceTypes.Text.Blank
import ResourceTypes.Text.Mark
import ResourceTypes.Text.Case
import ResourceTypes.Text.Lines
import ResourceTypes.Text.Quoted
import ResourceTypes.Text.Utf8
import ResourceTypes.OrderedMap
import ResourceTypes.Path
import ResourceTypes.Schema
import ResourceTypes.Decimal.Shortest
import ResourceTypes.Json.Number
import ResourceTypes.Json.Record
import ResourceTypes.Schema.Reader
import ResourceTypes.Toml.Document
import ResourceTypes.Config.Reader
import ResourceTypes.Declaration.Printer
import ResourceTypes.Field.Comment
import ResourceTypes.SymbolTable
import ResourceTypes.Field.Secret
import ResourceTypes.Build.Basic
import ResourceTypes.Schema.Json
import ResourceTypes.Report
import ResourceTypes.Log.Failure
import ResourceTypes.Files.Tree
import ResourceTypes.Command.Run
import ResourceTypes.Main
import ResourceTypes.Proofs.Forest
import ResourceTypes.Proofs.Schema.Nested
import ResourceTypes.Proofs.Build.Run
import ResourceTypes.Proofs.Build.Placement
import ResourceTypes.Proofs.Build.Resolution
import ResourceTypes.Proofs.Build.Walk
import ResourceTypes.Proofs.Build.TypeNames
import ResourceTypes.Proofs.Build.Links
import ResourceTypes.Proofs.Build.Worlds
import ResourceTypes.Proofs.Build.Locations
import ResourceTypes.Proofs.Build.Faults
import ResourceTypes.Proofs.Build.Documents
import ResourceTypes.Proofs.Build.Contributions
import ResourceTypes.Proofs.Build.Documentation
import ResourceTypes.Proofs.Build.Registry
import ResourceTypes.Proofs.OrderedSet
import ResourceTypes.Proofs.Text.Trim
import ResourceTypes.Proofs.Path.Reading
import ResourceTypes.Proofs.Path.Grammar
import ResourceTypes.Proofs.Build.Composition
import ResourceTypes.Proofs.Build.Effects
import ResourceTypes.Proofs.Build.Replay
import ResourceTypes.Proofs.Build.Decisions
import ResourceTypes.Proofs.Build.Alike
import ResourceTypes.Proofs.Build.Ignored
import ResourceTypes.Proofs.Build.Companions
import ResourceTypes.Proofs.Build.Reports
import ResourceTypes.Proofs.Build.Values
import ResourceTypes.Proofs.Build.Shapes
import ResourceTypes.Proofs.Build.FieldLists
import ResourceTypes.Proofs.Build.FieldNames
import ResourceTypes.Proofs.Build.Secrets
import ResourceTypes.Proofs.Build.Chains
import ResourceTypes.Proofs.Build.Omission
import ResourceTypes.Proofs.Build.Targets
import ResourceTypes.Proofs.Build.Depth
import ResourceTypes.Proofs.Build.Validity
import ResourceTypes.Proofs.Build.Trails
import ResourceTypes.Proofs.Build.Identifiers
import ResourceTypes.Proofs.Build.Rereading
import ResourceTypes.Proofs.Build.Rejection
import ResourceTypes.Proofs.Config.References
import ResourceTypes.Proofs.Field.Comment
import ResourceTypes.Proofs.Field.Suffixes
import ResourceTypes.Proofs.Declaration.Rendering
import ResourceTypes.Proofs.Schema.RoundTrip
import ResourceTypes.Proofs.SymbolTable.Allocation
import ResourceTypes.Proofs.SymbolTable.Exhaustion
import ResourceTypes.Proofs.Build.Entries
import ResourceTypes.Proofs.Log.Concatenation
import ResourceTypes.Proofs.Log.Printed
