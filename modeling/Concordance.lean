import Concordance.Catalog.Access
import Concordance.Catalog.Numbering
import Concordance.Catalog.Postings
import Concordance.Catalog.Snapshot
import Concordance.Console.Invocation
import Concordance.Console.Line
import Concordance.Console.Perform
import Concordance.Console.QueryFile
import Concordance.Console.Report
import Concordance.Disk.Backing
import Concordance.Disk.FileTree
import Concordance.Disk.OpenFiles
import Concordance.Disk.Volume
import Concordance.Document.Basic
import Concordance.Document.Codec
import Concordance.Document.Stored
import Concordance.Error
import Concordance.Exchange.Document
import Concordance.Exchange.Operation
import Concordance.Exchange.Plan
import Concordance.Exchange.Snapshot
import Concordance.Exchange.Store
import Concordance.Exchange.Stream
import Concordance.Exchange.Value
import Concordance.Json.Basic
import Concordance.Json.Printer
import Concordance.Json.Reader
import Concordance.Main
import Concordance.Metadata.Aggregate
import Concordance.Metadata.ColumnType
import Concordance.Metadata.Migration
import Concordance.Metadata.Schema
import Concordance.Metadata.Table
import Concordance.Number.Double
import Concordance.Number.Dyadic
import Concordance.Number.Format
import Concordance.Proofs.Catalog.Access
import Concordance.Proofs.Catalog.Alike
import Concordance.Proofs.Catalog.Bookkeeping
import Concordance.Proofs.Catalog.Changes
import Concordance.Proofs.Catalog.Consistency
import Concordance.Proofs.Catalog.Decoding
import Concordance.Proofs.Catalog.Encoding
import Concordance.Proofs.Catalog.Entry
import Concordance.Proofs.Catalog.Frame
import Concordance.Proofs.Catalog.Numbering
import Concordance.Proofs.Catalog.Postings
import Concordance.Proofs.Catalog.Soundness
import Concordance.Proofs.Console.Agreement
import Concordance.Proofs.Disk.Lasting
import Concordance.Proofs.Disk.Volume
import Concordance.Proofs.Document.Codec
import Concordance.Proofs.Document.Stored
import Concordance.Proofs.Fallible
import Concordance.Proofs.Json.Reader
import Concordance.Proofs.Json.Scalar
import Concordance.Proofs.Metadata.Blocks
import Concordance.Proofs.Metadata.Codec
import Concordance.Proofs.Metadata.Construction
import Concordance.Proofs.Metadata.Conversion
import Concordance.Proofs.Metadata.Descent
import Concordance.Proofs.Metadata.Encoding
import Concordance.Proofs.Metadata.Migration
import Concordance.Proofs.Metadata.Record
import Concordance.Proofs.Metadata.SchemaText
import Concordance.Proofs.Metadata.Slots
import Concordance.Proofs.Metadata.Table
import Concordance.Proofs.Metadata.Value
import Concordance.Proofs.Number.TotalOrder
import Concordance.Proofs.Query.Arrangement
import Concordance.Proofs.Query.BestWindow
import Concordance.Proofs.Query.Crew
import Concordance.Proofs.Query.Criteria
import Concordance.Proofs.Query.Cursor
import Concordance.Proofs.Query.Estimate
import Concordance.Proofs.Query.Evaluation
import Concordance.Proofs.Query.Excerpt
import Concordance.Proofs.Query.Filters
import Concordance.Proofs.Query.Formula.Acceptance
import Concordance.Proofs.Query.Formula.Compilation
import Concordance.Proofs.Query.Formula.Descent
import Concordance.Proofs.Query.Formula.Evaluation
import Concordance.Proofs.Query.Formula.Grammar
import Concordance.Proofs.Query.Formula.Lexemes
import Concordance.Proofs.Query.Landing
import Concordance.Proofs.Query.Listing
import Concordance.Proofs.Query.Markup
import Concordance.Proofs.Query.Meaning
import Concordance.Proofs.Query.Nearest
import Concordance.Proofs.Query.PhraseText
import Concordance.Proofs.Query.Plan
import Concordance.Proofs.Query.Planning
import Concordance.Proofs.Query.Ranking
import Concordance.Proofs.Query.Reach
import Concordance.Proofs.Query.Sequence
import Concordance.Proofs.Query.Span
import Concordance.Proofs.Query.TopRanks
import Concordance.Proofs.Query.TrueEnds
import Concordance.Proofs.Query.Window
import Concordance.Proofs.Recovery.Checkpoint
import Concordance.Proofs.Recovery.CommitRecord
import Concordance.Proofs.Recovery.Journal
import Concordance.Proofs.Recovery.Ledger
import Concordance.Proofs.Recovery.Replay
import Concordance.Proofs.Recovery.Salvage
import Concordance.Proofs.SortedMap
import Concordance.Proofs.Statistics.Blob
import Concordance.Proofs.Statistics.Codec
import Concordance.Proofs.Statistics.Corruption
import Concordance.Proofs.Statistics.Merging
import Concordance.Proofs.Statistics.Message
import Concordance.Proofs.Statistics.Replica
import Concordance.Proofs.Statistics.Resumption
import Concordance.Proofs.Statistics.Retention
import Concordance.Proofs.Statistics.Roundtrip
import Concordance.Proofs.Store.Calm
import Concordance.Proofs.Store.Config
import Concordance.Proofs.Store.Conservation
import Concordance.Proofs.Store.Contents
import Concordance.Proofs.Store.Crash
import Concordance.Proofs.Store.Execution
import Concordance.Proofs.Store.Failure
import Concordance.Proofs.Store.Federation
import Concordance.Proofs.Store.Fidelity
import Concordance.Proofs.Store.Leftovers
import Concordance.Proofs.Store.Lending
import Concordance.Proofs.Store.Lifetime
import Concordance.Proofs.Store.Mirroring
import Concordance.Proofs.Store.Placement
import Concordance.Proofs.Store.Published
import Concordance.Proofs.Store.Quoting
import Concordance.Proofs.Store.Readers
import Concordance.Proofs.Store.Registration
import Concordance.Proofs.Store.Rehearsal
import Concordance.Proofs.Store.Replication
import Concordance.Proofs.Store.Restoring
import Concordance.Proofs.Store.Saved
import Concordance.Proofs.Store.Serial
import Concordance.Proofs.Store.Settings
import Concordance.Proofs.Store.Sparing
import Concordance.Proofs.Store.Tenure
import Concordance.Proofs.Store.Timeline
import Concordance.Proofs.Text.Runs
import Concordance.Proofs.Text.Utf8
import Concordance.Proofs.Wire.Bytes
import Concordance.Proofs.Wire.Checksum
import Concordance.Proofs.Wire.Codec
import Concordance.Proofs.Wire.Extent
import Concordance.Proofs.Wire.Reader
import Concordance.Proofs.Wire.Stream
import Concordance.Proofs.Wire.Varint
import Concordance.Proofs.Wire.Words
import Concordance.Query.Arrangement
import Concordance.Query.Browser
import Concordance.Query.Call
import Concordance.Query.Cursor
import Concordance.Query.Feature
import Concordance.Query.Filters
import Concordance.Query.Formula.Compiler
import Concordance.Query.Formula.Machine
import Concordance.Query.Formula.Program
import Concordance.Query.Pattern
import Concordance.Query.Phrase
import Concordance.Query.Plan
import Concordance.Query.Planning
import Concordance.Query.Ranking
import Concordance.Query.Restriction
import Concordance.Query.Scheme
import Concordance.Query.Session
import Concordance.Query.Summary
import Concordance.Query.Weighting
import Concordance.Recovery.Checkpoint
import Concordance.Recovery.CommitRecord
import Concordance.Recovery.Journal
import Concordance.SortedMap
import Concordance.Statistics.Basic
import Concordance.Statistics.Blob
import Concordance.Statistics.Message
import Concordance.Statistics.Replica
import Concordance.Store.Basic
import Concordance.Store.Commit
import Concordance.Store.Config
import Concordance.Store.Readers
import Concordance.Store.Transaction
import Concordance.Store.Workspace
import Concordance.Term
import Concordance.Text.Blank
import Concordance.Text.Letter
import Concordance.Text.Printable
import Concordance.Text.Split
import Concordance.Text.Utf8
import Concordance.Wire.Codec
import Concordance.Wire.Field
import Concordance.Wire.Reader
import Concordance.Wire.Varint
