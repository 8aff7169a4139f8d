import StoryWorld.Config.Environment
import StoryWorld.Config.Load
import StoryWorld.Config.Merge
import StoryWorld.Decay
import StoryWorld.Delta.Amend
import StoryWorld.Delta.Basic
import StoryWorld.Delta.Batch
import StoryWorld.Delta.Text
import StoryWorld.Delta.Transfer
import StoryWorld.Digest.Sha256
import StoryWorld.Expression.Context
import StoryWorld.Expression.Evaluate
import StoryWorld.Expression.Parser
import StoryWorld.Expression.Prerequisite
import StoryWorld.Expression.Token
import StoryWorld.Expression.Tree
import StoryWorld.Fault
import StoryWorld.Journal
import StoryWorld.Json.Canonical
import StoryWorld.Json.Reader
import StoryWorld.Json.Tolerant
import StoryWorld.Number.Basic
import StoryWorld.Number.Binary
import StoryWorld.Number.Decimal
import StoryWorld.Number.Layout
import StoryWorld.Operator.Apply
import StoryWorld.Operator.Basic
import StoryWorld.Path.Assign
import StoryWorld.Path.Locate
import StoryWorld.Path.Place
import StoryWorld.Path.Segment
import StoryWorld.Path.Step
import StoryWorld.Retrieval.Scene
import StoryWorld.Retrieval.Subgraph
import StoryWorld.Retrieval.Walk
import StoryWorld.Schema.Builtin
import StoryWorld.Schema.Catalogue
import StoryWorld.Schema.Comparison
import StoryWorld.Schema.Document
import StoryWorld.Schema.Ledger
import StoryWorld.Schema.Numeral
import StoryWorld.Schema.Shape
import StoryWorld.Schema.Validate
import StoryWorld.Schema.Verdict
import StoryWorld.Story.Basic
import StoryWorld.Story.Query
import StoryWorld.Story.Snapshot
import StoryWorld.Table
import StoryWorld.Text.Blank
import StoryWorld.Text.Capital
import StoryWorld.Text.Digit
import StoryWorld.Text.Lines
import StoryWorld.Text.Optional
import StoryWorld.Text.Printable
import StoryWorld.Text.Quoted
import StoryWorld.Value.Basic
import StoryWorld.Value.Computed
import StoryWorld.Value.Display
import StoryWorld.Value.Equality
import StoryWorld.Value.Order
import StoryWorld.Proofs.Tables
import StoryWorld.Proofs.Reading
import StoryWorld.Proofs.Paths
import StoryWorld.Proofs.Holdings
import StoryWorld.Proofs.Guarded
import StoryWorld.Proofs.Transfer
import StoryWorld.Proofs.Runs
import StoryWorld.Proofs.Kinds
import StoryWorld.Proofs.Atomic
import StoryWorld.Proofs.Conservation
import StoryWorld.Proofs.Rounding
import StoryWorld.Proofs.Difference
import StoryWorld.Proofs.AllOrNothing
import StoryWorld.Proofs.Refusals
import StoryWorld.Proofs.Batches
import StoryWorld.Proofs.Grammar
import StoryWorld.Proofs.Parsing
import StoryWorld.Proofs.Ties
import StoryWorld.Proofs.Walks
import StoryWorld.Proofs.Named
import StoryWorld.Proofs.Roles
import StoryWorld.Proofs.Spelling
import StoryWorld.Proofs.Tolerance
import StoryWorld.Proofs.Decimals
import StoryWorld.Proofs.Shortest
import StoryWorld.Proofs.Layouts
import StoryWorld.Proofs.Ordered
import StoryWorld.Proofs.Written
import StoryWorld.Proofs.Restored
import StoryWorld.Proofs.Records
import StoryWorld.Proofs.Storable
import StoryWorld.Proofs.Reloaded
import StoryWorld.Proofs.Recovered
import StoryWorld.Proofs.Faithful
import StoryWorld.Proofs.Documented
import StoryWorld.Proofs.Orderly
import StoryWorld.Proofs.Frame
import StoryWorld.Proofs.Dumped
import StoryWorld.Proofs.Setting
import StoryWorld.Proofs.Settled
import StoryWorld.Proofs.Commuting
import StoryWorld.Proofs.Standing
import StoryWorld.Proofs.Upheld
import StoryWorld.Proofs.Sizes
import StoryWorld.Proofs.Answers
import StoryWorld.Proofs.Accounts
import StoryWorld.Proofs.AsWritten
import StoryWorld.Proofs.Stored
import StoryWorld.Proofs.Rereads
import StoryWorld.Proofs.RereadEntities
import StoryWorld.Proofs.Along
import StoryWorld.Proofs.Lasting
import StoryWorld.Proofs.Growth
import StoryWorld.Proofs.Ranks
import StoryWorld.Proofs.Typed
import StoryWorld.Proofs.Views
import StoryWorld.Proofs.Neighbourhood
import StoryWorld.Proofs.Hops
import StoryWorld.Proofs.Episodes
import StoryWorld.Proofs.Spaced
import StoryWorld.Proofs.Integral
import StoryWorld.Proofs.Intact
import StoryWorld.Proofs.Evaluations
import StoryWorld.Proofs.TypedAlong
import StoryWorld.Proofs.Fading
import StoryWorld.Proofs.Questions
import StoryWorld.Proofs.Members
import StoryWorld.Proofs.Confined
import StoryWorld.Proofs.Hidden
import StoryWorld.Proofs.Tidy
import StoryWorld.Proofs.TidyAlong
import StoryWorld.Proofs.Detected
import StoryWorld.Proofs.Layering
import StoryWorld.Proofs.Precedence
import StoryWorld.Proofs.Equality
import StoryWorld.Proofs.Strictness
import StoryWorld.Proofs.Symmetry
import StoryWorld.Proofs.Ways
import StoryWorld.Proofs.Undone
import StoryWorld.Proofs.Repeats
import StoryWorld.Proofs.Rankings
import StoryWorld.Proofs.Foremost
import StoryWorld.Proofs.Spared
import StoryWorld.Proofs.Loosened
import StoryWorld.Proofs.Payload
import StoryWorld.Proofs.Wording
import StoryWorld.Proofs.Padding
import StoryWorld.Proofs.Lingering
import StoryWorld.Proofs.Multiplicity
import StoryWorld.Proofs.Navigation
import StoryWorld.Proofs.Accessors
import StoryWorld.Proofs.QuotedKeys
import StoryWorld.Proofs.Lexemes
import StoryWorld.Proofs.Tiling
import StoryWorld.Proofs.Respaced
