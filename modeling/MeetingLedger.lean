import MeetingLedger.Arithmetic.Double
import MeetingLedger.Arithmetic.Numeral
import MeetingLedger.Arithmetic.Shortest
import MeetingLedger.CommandLine.Arguments
import MeetingLedger.CommandLine.Check
import MeetingLedger.CommandLine.Completion
import MeetingLedger.CommandLine.Format
import MeetingLedger.CommandLine.Help
import MeetingLedger.CommandLine.Invocation
import MeetingLedger.CommandLine.Migrate
import MeetingLedger.CommandLine.Models
import MeetingLedger.CommandLine.Session
import MeetingLedger.Consistency.Checker
import MeetingLedger.Consistency.Config
import MeetingLedger.Consistency.Finding
import MeetingLedger.Consistency.Motion
import MeetingLedger.Consistency.Relation
import MeetingLedger.Container.SortedMap
import MeetingLedger.Dataset.Instance
import MeetingLedger.Dataset.Snapshot
import MeetingLedger.Dataset.Visibility
import MeetingLedger.ErrorCode
import MeetingLedger.Fqid
import MeetingLedger.Json.Basic
import MeetingLedger.Json.Reader
import MeetingLedger.Json.Writer
import MeetingLedger.Ledger.Codec
import MeetingLedger.Ledger.Event
import MeetingLedger.Ledger.History
import MeetingLedger.Main
import MeetingLedger.Markup.Attribute
import MeetingLedger.Markup.Policy
import MeetingLedger.Markup.Sanitize
import MeetingLedger.Markup.Token
import MeetingLedger.Migration.Chain
import MeetingLedger.Migration.ColorNormalization
import MeetingLedger.Migration.CommitteeManagement
import MeetingLedger.Migration.FileInheritance
import MeetingLedger.Migration.Migrator
import MeetingLedger.Migration.Run
import MeetingLedger.Migration.Scripted
import MeetingLedger.Migration.Step
import MeetingLedger.Pattern.Basic
import MeetingLedger.Pattern.Reader
import MeetingLedger.Schema.Builder
import MeetingLedger.Schema.Declaration
import MeetingLedger.Schema.Field
import MeetingLedger.Schema.Registry
import MeetingLedger.Schema.Standard
import MeetingLedger.Schema.Standard.Mediafile
import MeetingLedger.Schema.Standard.Meeting
import MeetingLedger.Schema.Standard.Motion
import MeetingLedger.Schema.Standard.Organization
import MeetingLedger.Schema.Value
import MeetingLedger.Settings
import MeetingLedger.Storage.Disk
import MeetingLedger.Storage.LogDirectory
import MeetingLedger.Storage.Store
import MeetingLedger.Text.Character
import MeetingLedger.Text.Word
import MeetingLedger.Timing
import MeetingLedger.Toml.Basic
import MeetingLedger.Toml.Document
import MeetingLedger.Toml.Reader
import MeetingLedger.Yaml.Basic
import MeetingLedger.Yaml.Reader
import MeetingLedger.Yaml.Scalar
import MeetingLedger.Proofs.Container.Lookup
import MeetingLedger.Proofs.Ledger.Fields
import MeetingLedger.Proofs.Ledger.ModelView
import MeetingLedger.Proofs.Ledger.RoundTrip
import MeetingLedger.Proofs.Ledger.Agreement
import MeetingLedger.Proofs.Ledger.Interleaving
import MeetingLedger.Proofs.Migration.Run
import MeetingLedger.Proofs.Migration.Colors
import MeetingLedger.Proofs.Migration.Management.Legacy
import MeetingLedger.Proofs.Migration.Management.Levels
import MeetingLedger.Proofs.Migration.Management.Readable
import MeetingLedger.Proofs.Migration.Management.Standing
import MeetingLedger.Proofs.Migration.Management.Position
import MeetingLedger.Proofs.Migration.Management.Rewritten
import MeetingLedger.Proofs.Migration.Management.Tracking
import MeetingLedger.Proofs.Migration.Management.Committees
import MeetingLedger.Proofs.Migration.Management.Managers
import MeetingLedger.Proofs.Migration.Management.Refusal
import MeetingLedger.Proofs.Migration.Engine.Pending
import MeetingLedger.Proofs.Migration.Engine.Registered
import MeetingLedger.Proofs.Migration.Engine.Stepwise
import MeetingLedger.Proofs.Migration.Engine.Visits
import MeetingLedger.Proofs.Migration.Engine.Export
import MeetingLedger.Proofs.Fqid
import MeetingLedger.Proofs.Schema.Mirror
import MeetingLedger.Proofs.Consistency.Integrity
import MeetingLedger.Proofs.Ledger.Collection
import MeetingLedger.Proofs.Migration.Inheritance.Resolve
import MeetingLedger.Proofs.Migration.Inheritance.Records
import MeetingLedger.Proofs.Migration.Inheritance.Directories
import MeetingLedger.Proofs.Dataset.Ancestry
import MeetingLedger.Proofs.Dataset.Shape
import MeetingLedger.Proofs.Migration.Engine.Numbering
import MeetingLedger.Proofs.Migration.Inheritance.Placement
import MeetingLedger.Proofs.Migration.Inheritance.Cycles
import MeetingLedger.Proofs.Consistency.Accepted
import MeetingLedger.Proofs.Migration.Inheritance.Consistent
import MeetingLedger.Proofs.Consistency.Strictness
import MeetingLedger.Proofs.Migration.Management.Footprint
import MeetingLedger.Proofs.Dataset.Descent
import MeetingLedger.Proofs.Migration.Engine.Forgetful
import MeetingLedger.Proofs.Migration.Engine.Stages
import MeetingLedger.Proofs.Markup.Idempotence
import MeetingLedger.Proofs.Markup.Acceptance
import MeetingLedger.Proofs.Markup.Shown
import MeetingLedger.Proofs.Ledger.Refusal
import MeetingLedger.Proofs.Migration.Inheritance.Groups
import MeetingLedger.Proofs.Consistency.Stability
import MeetingLedger.Proofs.Schema.Values
import MeetingLedger.Proofs.Consistency.Defaults
import MeetingLedger.Proofs.Migration.Inheritance.Convergence
import MeetingLedger.Proofs.Schema.Decimals
import MeetingLedger.Proofs.Migration.Inheritance.Derivation
import MeetingLedger.Proofs.Ledger.Revision
import MeetingLedger.Proofs.Markup.Scripts
import MeetingLedger.Proofs.Consistency.Extensions
import MeetingLedger.Proofs.Ledger.Scans
import MeetingLedger.Proofs.Text.Encoding
import MeetingLedger.Proofs.Markup.Spans
