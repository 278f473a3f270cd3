import MediaQuery.Action
import MediaQuery.Branch.Store
import MediaQuery.Branch.Tree
import MediaQuery.Contract
import MediaQuery.Decimal.Shortest
import MediaQuery.Error
import MediaQuery.Fields
import MediaQuery.Finder
import MediaQuery.Handler
import MediaQuery.Hook
import MediaQuery.Inputs
import MediaQuery.Instant
import MediaQuery.Json.Basic
import MediaQuery.Json.Reader
import MediaQuery.Json.Text
import MediaQuery.Machine.Drive
import MediaQuery.Machine.Progress
import MediaQuery.Machine.Run
import MediaQuery.Machine.State
import MediaQuery.Machine.Token
import MediaQuery.Machine.Turn
import MediaQuery.Media.Duration
import MediaQuery.Media.Error
import MediaQuery.Media.FileType
import MediaQuery.Media.Guess
import MediaQuery.Options
import MediaQuery.Order.Bag
import MediaQuery.PageTask
import MediaQuery.Path
import MediaQuery.Program.Basic
import MediaQuery.Program.Context
import MediaQuery.Query
import MediaQuery.Report
import MediaQuery.Request
import MediaQuery.Response
import MediaQuery.Script.Expr
import MediaQuery.Script.Hooks
import MediaQuery.Script.Rules
import MediaQuery.Script.Steps
import MediaQuery.Template.Basic
import MediaQuery.Template.Evaluate
import MediaQuery.Text.Blank
import MediaQuery.Text.Digit
import MediaQuery.Text.Entity
import MediaQuery.Text.EntityNames
import MediaQuery.Text.Fold
import MediaQuery.Text.Hidden
import MediaQuery.Text.Quoted
import MediaQuery.Text.Span
import MediaQuery.Text.Word
import MediaQuery.Validation
import MediaQuery.Value.Basic
import MediaQuery.Value.Json
import MediaQuery.Walk
import MediaQuery.Proofs.Machine.Sequence
import MediaQuery.Proofs.Query.Step
import MediaQuery.Proofs.Query.Budget
import MediaQuery.Proofs.Branch.Node
import MediaQuery.Proofs.Branch.Store
import MediaQuery.Proofs.Machine.Place
import MediaQuery.Proofs.Machine.Future
import MediaQuery.Proofs.Machine.History
import MediaQuery.Proofs.Machine.Lineage
import MediaQuery.Proofs.Machine.Reading
import MediaQuery.Proofs.Machine.Stale
import MediaQuery.Proofs.Branch.Sorted
import MediaQuery.Proofs.Machine.Acts
import MediaQuery.Proofs.Machine.Passes
import MediaQuery.Proofs.Machine.Recorded
import MediaQuery.Proofs.Machine.Queue
import MediaQuery.Proofs.Error.Likeness
import MediaQuery.Proofs.Program.Alike
import MediaQuery.Proofs.Template.Blind
import MediaQuery.Proofs.Branch.Shift
import MediaQuery.Proofs.Machine.Alike
import MediaQuery.Proofs.Machine.Session
import MediaQuery.Proofs.Machine.Mirror
import MediaQuery.Proofs.Machine.MirrorFuture
import MediaQuery.Proofs.Machine.MirrorRun
import MediaQuery.Proofs.Machine.Upheld
import MediaQuery.Proofs.Machine.Confined
import MediaQuery.Proofs.Machine.Clock
import MediaQuery.Proofs.Machine.Inside
import MediaQuery.Proofs.Machine.Hosts
import MediaQuery.Proofs.Machine.Follow
import MediaQuery.Proofs.Machine.Lone
import MediaQuery.Proofs.Machine.Siblings
import MediaQuery.Proofs.Machine.Local
import MediaQuery.Proofs.Template.Local
import MediaQuery.Proofs.Template.Parts
import MediaQuery.Proofs.Template.Isolation
import MediaQuery.Proofs.Template.Failure
import MediaQuery.Proofs.Query.Extent
import MediaQuery.Proofs.Query.Secrets
import MediaQuery.Proofs.Query.Reading
import MediaQuery.Proofs.Query.Threading
import MediaQuery.Proofs.Query.Checked
import MediaQuery.Proofs.Machine.Evolves
import MediaQuery.Proofs.Program.Safe
import MediaQuery.Proofs.Machine.Safety
import MediaQuery.Proofs.Template.Reported
import MediaQuery.Proofs.Value.Json
import MediaQuery.Proofs.Query.Answered
import MediaQuery.Proofs.Query.Readable
import MediaQuery.Proofs.Program.Retimed
import MediaQuery.Proofs.Program.Hooks
import MediaQuery.Proofs.Machine.Agree
import MediaQuery.Proofs.Template.Retimed
import MediaQuery.Proofs.Query.Retimed
import MediaQuery.Proofs.Machine.Outcome
import MediaQuery.Proofs.Template.Outcome
import MediaQuery.Proofs.Template.Marker
import MediaQuery.Proofs.Template.Below
import MediaQuery.Proofs.Template.CurrentValue
import MediaQuery.Proofs.Branch.Descendants
import MediaQuery.Proofs.Machine.Sealed
import MediaQuery.Proofs.Query.Nested
import MediaQuery.Proofs.Query.Retry
import MediaQuery.Proofs.Query.Rewind
import MediaQuery.Proofs.Machine.Moment
import MediaQuery.Proofs.Machine.Passage
import MediaQuery.Proofs.Machine.Report
import MediaQuery.Proofs.Machine.Waiting
import MediaQuery.Proofs.Machine.AfterWait
import MediaQuery.Proofs.Template.SettledValue
import MediaQuery.Proofs.Machine.Snapshot
import MediaQuery.Proofs.Template.Origin
import MediaQuery.Proofs.Template.Placement
import MediaQuery.Proofs.Template.Chain
import MediaQuery.Proofs.Machine.Hosted
import MediaQuery.Proofs.Machine.Aside
import MediaQuery.Proofs.Template.Fresh
import MediaQuery.Proofs.Template.Transparent
import MediaQuery.Proofs.Template.Passage
import MediaQuery.Proofs.Template.Elements
import MediaQuery.Proofs.Template.Assembly
import MediaQuery.Proofs.Template.OutputKeys
import MediaQuery.Proofs.Program.Visits
import MediaQuery.Proofs.Machine.Turns
import MediaQuery.Proofs.Machine.Visited
import MediaQuery.Proofs.Template.Caller
import MediaQuery.Proofs.Query.Pruned
import MediaQuery.Proofs.Query.Verdict
import MediaQuery.Proofs.Machine.Reached
import MediaQuery.Proofs.Template.Entries
import MediaQuery.Proofs.Template.Safe
import MediaQuery.Proofs.Template.Dated
import MediaQuery.Proofs.Template.Ordered
import MediaQuery.Proofs.Machine.Grown
import MediaQuery.Proofs.Template.Located
import MediaQuery.Proofs.Machine.Descent
import MediaQuery.Proofs.Program.Registers
import MediaQuery.Proofs.Machine.Registered
import MediaQuery.Proofs.Template.Descent
import MediaQuery.Proofs.Value.NormalForm
import MediaQuery.Proofs.Request.Defaults
import MediaQuery.Proofs.Request.Encodings
import MediaQuery.Proofs.Hook.Nesting
import MediaQuery.Proofs.Value.Encoders
import MediaQuery.Proofs.Text.Classes
import MediaQuery.Proofs.Media.ClockText
import MediaQuery.Proofs.Media.Guess
import MediaQuery.Proofs.Media.Address
import MediaQuery.Proofs.Path.Rendering
import MediaQuery.Proofs.Error.Report
