import ModRepair.Command.Arguments
import ModRepair.Command.Destination
import ModRepair.Command.Loading
import ModRepair.Command.Run
import ModRepair.Command.Session
import ModRepair.Interchange.Fault
import ModRepair.Interchange.Reader
import ModRepair.Interchange.Writer
import ModRepair.Json.ErrorReport
import ModRepair.Json.Parser
import ModRepair.Json.Path
import ModRepair.Json.Printer
import ModRepair.Json.Value
import ModRepair.Log.Filter
import ModRepair.Log.Logger
import ModRepair.Log.Options
import ModRepair.Log.Record
import ModRepair.Main
import ModRepair.Metadata.Declaration
import ModRepair.Metadata.Host
import ModRepair.Metadata.Listing
import ModRepair.Metadata.Module
import ModRepair.Metadata.Opcode
import ModRepair.Metadata.Reference
import ModRepair.Metadata.Traversal
import ModRepair.Profile.Reader
import ModRepair.Profile.Relocation
import ModRepair.Proofs.Command.Arguments
import ModRepair.Proofs.Command.Loading
import ModRepair.Proofs.Command.Logging
import ModRepair.Proofs.Command.Naming
import ModRepair.Proofs.Command.Outcome
import ModRepair.Proofs.Command.Publication
import ModRepair.Proofs.Interchange.Access
import ModRepair.Proofs.Interchange.Persistence
import ModRepair.Proofs.Interchange.Reading
import ModRepair.Proofs.Interchange.RoundTrip
import ModRepair.Proofs.Json.Acceptance
import ModRepair.Proofs.Json.Access
import ModRepair.Proofs.Json.Canonical
import ModRepair.Proofs.Json.Counting
import ModRepair.Proofs.Json.Depth
import ModRepair.Proofs.Json.Grammar
import ModRepair.Proofs.Json.Lookahead
import ModRepair.Proofs.Json.Position
import ModRepair.Proofs.Json.Refusal
import ModRepair.Proofs.Json.RoundTrip
import ModRepair.Proofs.Json.Spelling
import ModRepair.Proofs.Json.Token
import ModRepair.Proofs.Json.Unclosed
import ModRepair.Proofs.Log.Argument
import ModRepair.Proofs.Log.LastWord
import ModRepair.Proofs.Log.Line
import ModRepair.Proofs.Log.Precedence
import ModRepair.Proofs.Log.QuickTest
import ModRepair.Proofs.Log.Specification
import ModRepair.Proofs.Metadata.Alignment
import ModRepair.Proofs.Metadata.Arrival
import ModRepair.Proofs.Metadata.Closure
import ModRepair.Proofs.Metadata.Imports
import ModRepair.Proofs.Metadata.Registration
import ModRepair.Proofs.Metadata.TypeText
import ModRepair.Proofs.Metadata.Written
import ModRepair.Proofs.Profile.Access
import ModRepair.Proofs.Profile.Entry
import ModRepair.Proofs.Profile.Reading
import ModRepair.Proofs.Profile.Tables
import ModRepair.Proofs.Repair.Accounting
import ModRepair.Proofs.Repair.Agreement
import ModRepair.Proofs.Repair.Batch
import ModRepair.Proofs.Repair.Closure
import ModRepair.Proofs.Repair.Completion
import ModRepair.Proofs.Repair.Content
import ModRepair.Proofs.Repair.Contract
import ModRepair.Proofs.Repair.Detection
import ModRepair.Proofs.Repair.Failures
import ModRepair.Proofs.Repair.FixedPoint
import ModRepair.Proofs.Repair.Frame
import ModRepair.Proofs.Repair.Gating
import ModRepair.Proofs.Repair.Handling
import ModRepair.Proofs.Repair.Hearing
import ModRepair.Proofs.Repair.Heuristic
import ModRepair.Proofs.Repair.Idempotence
import ModRepair.Proofs.Repair.Independence
import ModRepair.Proofs.Repair.Namesake
import ModRepair.Proofs.Repair.Presence
import ModRepair.Proofs.Repair.Preservation
import ModRepair.Proofs.Repair.PropertyLoss
import ModRepair.Proofs.Repair.Rejection
import ModRepair.Proofs.Repair.Restoration
import ModRepair.Proofs.Repair.Schedule
import ModRepair.Proofs.Repair.Selection
import ModRepair.Proofs.Repair.Shadowing
import ModRepair.Proofs.Repair.Stability
import ModRepair.Proofs.Repair.StackUse
import ModRepair.Proofs.Repair.Table
import ModRepair.Proofs.Repair.TypeMove
import ModRepair.Proofs.Repair.Validity
import ModRepair.Proofs.Repair.ValueType
import ModRepair.Proofs.Repair.Written
import ModRepair.Proofs.Storage.Path
import ModRepair.Proofs.Storage.Shape
import ModRepair.Proofs.Storage.Stream
import ModRepair.Proofs.Text.Dictionary
import ModRepair.Proofs.Text.Numeral
import ModRepair.Proofs.Text.Split
import ModRepair.Proofs.Text.Utf8
import ModRepair.Repair.Batch
import ModRepair.Repair.Category
import ModRepair.Repair.Finder
import ModRepair.Repair.Handler
import ModRepair.Repair.Handling
import ModRepair.Repair.Registry
import ModRepair.Repair.Report
import ModRepair.Repair.Rule
import ModRepair.Repair.Run
import ModRepair.Storage.Files
import ModRepair.Storage.Path
import ModRepair.Storage.Stream
import ModRepair.Text.Binary64
import ModRepair.Text.Bytes
import ModRepair.Text.Dictionary
import ModRepair.Text.Numeral
import ModRepair.Text.Transcript
