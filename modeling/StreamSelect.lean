import StreamSelect.Binary64.Parts
import StreamSelect.Binary64.Shortest
import StreamSelect.Binary64.Text
import StreamSelect.Decimal.Arithmetic
import StreamSelect.Decimal.Basic
import StreamSelect.Decimal.Rounding
import StreamSelect.Decimal.Text
import StreamSelect.Document.Cursor
import StreamSelect.Document.Mapping
import StreamSelect.Document.Node
import StreamSelect.Document.Scalar
import StreamSelect.Document.Tag
import StreamSelect.Evaluation
import StreamSelect.Expr.Basic
import StreamSelect.Expr.Text
import StreamSelect.Fault
import StreamSelect.Function.Aggregate
import StreamSelect.Function.Basic
import StreamSelect.Function.Scalar
import StreamSelect.Instant
import StreamSelect.KeyedMap
import StreamSelect.Packet
import StreamSelect.Plan.Alias
import StreamSelect.Plan.Basic
import StreamSelect.Plan.Compile
import StreamSelect.Plan.Layout
import StreamSelect.Policy.Basic
import StreamSelect.Policy.Document
import StreamSelect.Policy.Environment
import StreamSelect.Project.Basic
import StreamSelect.Project.Named
import StreamSelect.Project.Positional
import StreamSelect.Proofs.Binary64.Arithmetic
import StreamSelect.Proofs.Binary64.Near
import StreamSelect.Proofs.Binary64.Nearest
import StreamSelect.Proofs.Binary64.Number
import StreamSelect.Proofs.Binary64.Parts
import StreamSelect.Proofs.Decimal.Difference
import StreamSelect.Proofs.Decimal.Double
import StreamSelect.Proofs.Decimal.Rounding
import StreamSelect.Proofs.Evaluation.Aggregate
import StreamSelect.Proofs.Evaluation.Alike
import StreamSelect.Proofs.Evaluation.Answered
import StreamSelect.Proofs.Evaluation.Call
import StreamSelect.Proofs.Evaluation.Case
import StreamSelect.Proofs.Evaluation.Columns
import StreamSelect.Proofs.Evaluation.Congruence
import StreamSelect.Proofs.Evaluation.Fault
import StreamSelect.Proofs.Evaluation.Group
import StreamSelect.Proofs.Evaluation.Spelling
import StreamSelect.Proofs.Expr.Columns
import StreamSelect.Proofs.Expr.Induction
import StreamSelect.Proofs.Expr.Reach
import StreamSelect.Proofs.Function.Deduplicate
import StreamSelect.Proofs.Function.Extreme
import StreamSelect.Proofs.Function.Total
import StreamSelect.Proofs.KeyedMap
import StreamSelect.Proofs.Outcome
import StreamSelect.Proofs.Packet
import StreamSelect.Proofs.Plan.Declared
import StreamSelect.Proofs.Plan.Expansion
import StreamSelect.Proofs.Plan.Hiding
import StreamSelect.Proofs.Plan.MetadataKeys
import StreamSelect.Proofs.Plan.Positions
import StreamSelect.Proofs.Plan.Scoping
import StreamSelect.Proofs.Project.Absence
import StreamSelect.Proofs.Project.AggregateAlias
import StreamSelect.Proofs.Project.AliasStore
import StreamSelect.Proofs.Project.Attribution
import StreamSelect.Proofs.Project.Bounds
import StreamSelect.Proofs.Project.Dependency
import StreamSelect.Proofs.Project.Detection
import StreamSelect.Proofs.Project.Dispatch
import StreamSelect.Proofs.Project.Expansion
import StreamSelect.Proofs.Project.Hiding
import StreamSelect.Proofs.Project.Idempotence
import StreamSelect.Proofs.Project.Keys
import StreamSelect.Proofs.Project.LastWrite
import StreamSelect.Proofs.Project.Mirror
import StreamSelect.Proofs.Project.Phases
import StreamSelect.Proofs.Project.Positional
import StreamSelect.Proofs.Project.Precedence
import StreamSelect.Proofs.Project.Resolution
import StreamSelect.Proofs.Project.Shape
import StreamSelect.Proofs.Project.Slots
import StreamSelect.Proofs.Project.StarArgument
import StreamSelect.Proofs.Row.JoinedLookup
import StreamSelect.Proofs.Row.Reshaping
import StreamSelect.Proofs.Row.TupleEvent
import StreamSelect.Proofs.Value.Order
import StreamSelect.Proofs.Value.Position
import StreamSelect.Row
import StreamSelect.SelectList
import StreamSelect.Text.Case
import StreamSelect.Text.CaseTable
import StreamSelect.Timestamp
import StreamSelect.Value.Arithmetic
import StreamSelect.Value.Basic
import StreamSelect.Value.Order
import StreamSelect.Value.Path
import StreamSelect.Value.Text
