import Rollup.Aggregation.Build
import Rollup.Aggregation.Method
import Rollup.Aggregation.Node
import Rollup.Aggregation.Order
import Rollup.Aggregation.Path
import Rollup.Aggregation.Resolve
import Rollup.Aggregation.Validation
import Rollup.Answer.Aggregations
import Rollup.Answer.Plain
import Rollup.Binary64.Basic
import Rollup.Binary64.Layout
import Rollup.Binary64.Order
import Rollup.Binary64.Reader
import Rollup.Binary64.Shortest
import Rollup.Bucketing.Basic
import Rollup.Bucketing.DateHistogram
import Rollup.Bucketing.Grouping
import Rollup.Bucketing.Histogram
import Rollup.Bucketing.Terms
import Rollup.Calendar.Date
import Rollup.Calendar.Instant
import Rollup.Calendar.Interval
import Rollup.Catalog.Basic
import Rollup.Catalog.Directory
import Rollup.Catalog.Ndjson
import Rollup.CommandLine
import Rollup.Engine
import Rollup.Entries
import Rollup.Error
import Rollup.Filter
import Rollup.Json.Basic
import Rollup.Json.Numeral
import Rollup.Json.Printer
import Rollup.Json.Quoted
import Rollup.Json.Raw
import Rollup.Json.Reader
import Rollup.Key
import Rollup.Limits
import Rollup.Main
import Rollup.Memory
import Rollup.Metric.Basic
import Rollup.Metric.Percentiles
import Rollup.Pipeline.Basic
import Rollup.Proofs.Aggregation.Acceptance
import Rollup.Proofs.Aggregation.Accounting
import Rollup.Proofs.Aggregation.Budget
import Rollup.Proofs.Aggregation.Candidates
import Rollup.Proofs.Aggregation.Columns
import Rollup.Proofs.Aggregation.Cut
import Rollup.Proofs.Aggregation.Dependencies
import Rollup.Proofs.Aggregation.Descent
import Rollup.Proofs.Aggregation.Dropped
import Rollup.Proofs.Aggregation.Evaluate
import Rollup.Proofs.Aggregation.Failures
import Rollup.Proofs.Aggregation.Faults
import Rollup.Proofs.Aggregation.Forms
import Rollup.Proofs.Aggregation.Limit
import Rollup.Proofs.Aggregation.Mismatch
import Rollup.Proofs.Aggregation.Narrow
import Rollup.Proofs.Aggregation.NarrowResolved
import Rollup.Proofs.Aggregation.Order
import Rollup.Proofs.Aggregation.Path
import Rollup.Proofs.Aggregation.Properties
import Rollup.Proofs.Aggregation.Published
import Rollup.Proofs.Aggregation.Reorder
import Rollup.Proofs.Aggregation.Resolve
import Rollup.Proofs.Aggregation.Selection
import Rollup.Proofs.Aggregation.Site
import Rollup.Proofs.Aggregation.Sorting
import Rollup.Proofs.Aggregation.TopN
import Rollup.Proofs.Aggregation.Validation
import Rollup.Proofs.Aggregation.Walk
import Rollup.Proofs.Answer.Figures
import Rollup.Proofs.Answer.Shown
import Rollup.Proofs.Binary64.Arithmetic
import Rollup.Proofs.Binary64.Faithful
import Rollup.Proofs.Binary64.Interpolation
import Rollup.Proofs.Binary64.Nearest
import Rollup.Proofs.Binary64.Pattern
import Rollup.Proofs.Binary64.Rounding
import Rollup.Proofs.Bucketing.Chain
import Rollup.Proofs.Bucketing.Counted
import Rollup.Proofs.Bucketing.Distinct
import Rollup.Proofs.Bucketing.Groups
import Rollup.Proofs.Bucketing.Methods
import Rollup.Proofs.Bucketing.Nulls
import Rollup.Proofs.Bucketing.Parameters
import Rollup.Proofs.Bucketing.Reorder
import Rollup.Proofs.Bucketing.Rows
import Rollup.Proofs.Bucketing.Scheme
import Rollup.Proofs.Bucketing.Sorted
import Rollup.Proofs.Bucketing.Span
import Rollup.Proofs.Bucketing.Starts
import Rollup.Proofs.Calendar.Dates
import Rollup.Proofs.Calendar.Interval
import Rollup.Proofs.Calendar.Partition
import Rollup.Proofs.Calendar.Walk
import Rollup.Proofs.Calendar.Written
import Rollup.Proofs.Catalog.Accounting
import Rollup.Proofs.Catalog.DrillDown
import Rollup.Proofs.Catalog.Execution
import Rollup.Proofs.Catalog.Flattened
import Rollup.Proofs.Catalog.InMemory
import Rollup.Proofs.Catalog.KeyPath
import Rollup.Proofs.Catalog.Projection
import Rollup.Proofs.Catalog.Rejection
import Rollup.Proofs.Engine.Aggregate
import Rollup.Proofs.Engine.Calls
import Rollup.Proofs.Engine.Execute
import Rollup.Proofs.Engine.Levels
import Rollup.Proofs.Engine.Limit
import Rollup.Proofs.Engine.Missing
import Rollup.Proofs.Engine.Prompt
import Rollup.Proofs.Engine.Properties
import Rollup.Proofs.Engine.Reorder
import Rollup.Proofs.Engine.Response
import Rollup.Proofs.Engine.Siblings
import Rollup.Proofs.Filter.Bounds
import Rollup.Proofs.Filter.Clauses
import Rollup.Proofs.Filter.Equality
import Rollup.Proofs.Filter.Meaning
import Rollup.Proofs.Filter.Rejection
import Rollup.Proofs.Filter.WellFormed
import Rollup.Proofs.Json.Written
import Rollup.Proofs.Key.Amount
import Rollup.Proofs.Key.DateText
import Rollup.Proofs.Key.Lawful
import Rollup.Proofs.Key.Order
import Rollup.Proofs.Lookup
import Rollup.Proofs.Metric.Percentiles
import Rollup.Proofs.Pipeline.Series
import Rollup.Proofs.Rows
import Rollup.Proofs.Search.Breakdown
import Rollup.Proofs.Search.Grammar
import Rollup.Proofs.Search.Nodes
import Rollup.Proofs.Server.Batch
import Rollup.Proofs.Success
import Rollup.Proofs.Text.Utf8
import Rollup.Result
import Rollup.Row
import Rollup.Search.Answer
import Rollup.Search.Batch
import Rollup.Search.Body
import Rollup.Search.Definition
import Rollup.Search.Error
import Rollup.Search.Fault
import Rollup.Search.Forest
import Rollup.Search.Record
import Rollup.Server.CrossOrigin
import Rollup.Server.Response
import Rollup.Server.Route
import Rollup.Server.Service
import Rollup.Server.Wire
import Rollup.Settings.Basic
import Rollup.Settings.Printer
import Rollup.Settings.Reader
import Rollup.Text.Blank
import Rollup.Text.Shown
import Rollup.Text.Utf8
import Rollup.Text.Visible
import Rollup.Toml.Basic
import Rollup.Toml.Quoted
import Rollup.Toml.Reader
import Rollup.Toml.Scalar
import Rollup.Word64
