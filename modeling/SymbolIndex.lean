import SymbolIndex.Blake3
import SymbolIndex.Collector
import SymbolIndex.Collector.Script
import SymbolIndex.Collector.Trees
import SymbolIndex.Command.Answer
import SymbolIndex.Command.Arguments
import SymbolIndex.Command.Lines
import SymbolIndex.Command.Run
import SymbolIndex.Data
import SymbolIndex.Data.Form
import SymbolIndex.Data.Outcomes
import SymbolIndex.Data.Rows
import SymbolIndex.Digest
import SymbolIndex.Disk
import SymbolIndex.Display.Grid
import SymbolIndex.Display.Marker
import SymbolIndex.Display.Records
import SymbolIndex.Display.Theme
import SymbolIndex.Engine
import SymbolIndex.Engine.Changes
import SymbolIndex.Engine.History
import SymbolIndex.Engine.Parts
import SymbolIndex.Engine.Project
import SymbolIndex.Engine.Run
import SymbolIndex.Extraction
import SymbolIndex.Extraction.Search
import SymbolIndex.Failure
import SymbolIndex.FileId
import SymbolIndex.FileStatus
import SymbolIndex.Json.Reader
import SymbolIndex.Json.Writer
import SymbolIndex.Language
import SymbolIndex.Main
import SymbolIndex.Overlay
import SymbolIndex.Overlay.Requests
import SymbolIndex.Part
import SymbolIndex.Part.Record
import SymbolIndex.Path
import SymbolIndex.Path.Resolution
import SymbolIndex.PathBook
import SymbolIndex.PathBook.Shelf
import SymbolIndex.Pool
import SymbolIndex.Pool.Calls
import SymbolIndex.Pool.Lending
import SymbolIndex.ProjectFile
import SymbolIndex.Proofs.Command.Indexing
import SymbolIndex.Proofs.Digest
import SymbolIndex.Proofs.Disk
import SymbolIndex.Proofs.Engine.Acceptance
import SymbolIndex.Proofs.Engine.Admission
import SymbolIndex.Proofs.Engine.Adoption
import SymbolIndex.Proofs.Engine.Alignment
import SymbolIndex.Proofs.Engine.Attention
import SymbolIndex.Proofs.Engine.Concurrency
import SymbolIndex.Proofs.Engine.Convergence
import SymbolIndex.Proofs.Engine.Counterparts
import SymbolIndex.Proofs.Engine.Coverage
import SymbolIndex.Proofs.Engine.Distribution
import SymbolIndex.Proofs.Engine.Incremental
import SymbolIndex.Proofs.Engine.Landings
import SymbolIndex.Proofs.Engine.Looking
import SymbolIndex.Proofs.Engine.Membership
import SymbolIndex.Proofs.Engine.Newest
import SymbolIndex.Proofs.Engine.Notices
import SymbolIndex.Proofs.Engine.Obligation
import SymbolIndex.Proofs.Engine.Outcome
import SymbolIndex.Proofs.Engine.Ownership
import SymbolIndex.Proofs.Engine.PartOrder
import SymbolIndex.Proofs.Engine.Placement
import SymbolIndex.Proofs.Engine.Preparation
import SymbolIndex.Proofs.Engine.Quiescence
import SymbolIndex.Proofs.Engine.Reachability
import SymbolIndex.Proofs.Engine.Regeneration
import SymbolIndex.Proofs.Engine.Release
import SymbolIndex.Proofs.Engine.Resubmission
import SymbolIndex.Proofs.Engine.Retirement
import SymbolIndex.Proofs.Engine.Scheduling
import SymbolIndex.Proofs.Engine.Settling
import SymbolIndex.Proofs.Engine.Sharing
import SymbolIndex.Proofs.Engine.Sparing
import SymbolIndex.Proofs.Engine.Spelling
import SymbolIndex.Proofs.Engine.Submission
import SymbolIndex.Proofs.Engine.Traces
import SymbolIndex.Proofs.Engine.Treatment
import SymbolIndex.Proofs.Engine.UpToDate
import SymbolIndex.Proofs.Engine.Whole
import SymbolIndex.Proofs.Engine.Working
import SymbolIndex.Proofs.Extraction.Accepted
import SymbolIndex.Proofs.Extraction.DeclaredName
import SymbolIndex.Proofs.Extraction.Definitions
import SymbolIndex.Proofs.Extraction.References
import SymbolIndex.Proofs.Extraction.Storable
import SymbolIndex.Proofs.FileId
import SymbolIndex.Proofs.Language
import SymbolIndex.Proofs.Matching
import SymbolIndex.Proofs.Overlay.Revisions
import SymbolIndex.Proofs.Path
import SymbolIndex.Proofs.Path.Joining
import SymbolIndex.Proofs.Path.Parent
import SymbolIndex.Proofs.Path.Resolution
import SymbolIndex.Proofs.Path.Shown
import SymbolIndex.Proofs.PathBook
import SymbolIndex.Proofs.PathBook.Interning
import SymbolIndex.Proofs.Pool
import SymbolIndex.Proofs.Pool.Demand
import SymbolIndex.Proofs.Pool.Exclusion
import SymbolIndex.Proofs.Results
import SymbolIndex.Proofs.Scheduler.Accounts
import SymbolIndex.Proofs.Scheduler.Conservation
import SymbolIndex.Proofs.Scheduler.Draining
import SymbolIndex.Proofs.Scheduler.Effort
import SymbolIndex.Proofs.Scheduler.Intact
import SymbolIndex.Proofs.Scheduler.Jobs
import SymbolIndex.Proofs.Scheduler.Rounds
import SymbolIndex.Proofs.Scheduler.Serving
import SymbolIndex.Proofs.Scheduler.Wakeups
import SymbolIndex.Proofs.Storage.Answers
import SymbolIndex.Proofs.Storage.Consistency
import SymbolIndex.Proofs.Storage.Deletion
import SymbolIndex.Proofs.Storage.Order
import SymbolIndex.Proofs.Storage.Repetition
import SymbolIndex.Proofs.Storage.Transfer
import SymbolIndex.Proofs.Store.Dropping
import SymbolIndex.Proofs.Store.Insertion
import SymbolIndex.Proofs.Store.ReadBack
import SymbolIndex.Proofs.Store.Records
import SymbolIndex.Proofs.Store.Renumbering
import SymbolIndex.Proofs.Store.Showing
import SymbolIndex.Proofs.Store.Sound
import SymbolIndex.Proofs.SyntaxTree
import SymbolIndex.Proofs.Table
import SymbolIndex.Proofs.Task.Line
import SymbolIndex.Proofs.Task.Queue
import SymbolIndex.Proofs.Watcher
import SymbolIndex.Proofs.Watcher.Batch
import SymbolIndex.Proofs.Watcher.Moves
import SymbolIndex.Proofs.Watcher.Representation
import SymbolIndex.Proofs.Watcher.Spelling
import SymbolIndex.Proofs.Watcher.Tidy
import SymbolIndex.Proofs.Watcher.Tracking
import SymbolIndex.Proofs.Watcher.Whole
import SymbolIndex.Scheduler
import SymbolIndex.Scheduler.Crew
import SymbolIndex.Scheduler.Drain
import SymbolIndex.Scheduler.Sections
import SymbolIndex.Settings
import SymbolIndex.StatusCache
import SymbolIndex.Storage
import SymbolIndex.Storage.Calls
import SymbolIndex.Storage.Deliveries
import SymbolIndex.Store
import SymbolIndex.Store.Archive
import SymbolIndex.Store.Mutation
import SymbolIndex.Store.Query
import SymbolIndex.Symbol
import SymbolIndex.SyntaxTree
import SymbolIndex.Table
import SymbolIndex.Task
import SymbolIndex.Task.Queue
import SymbolIndex.Task.Requests
import SymbolIndex.Text.Chars
import SymbolIndex.Text.Hex
import SymbolIndex.Text.Utf8
import SymbolIndex.Text.Width
import SymbolIndex.Toml.Document
import SymbolIndex.Toml.Quoted
import SymbolIndex.Toml.Scalar
import SymbolIndex.Toml.Value
import SymbolIndex.Watcher
import SymbolIndex.Watcher.Gathering
import SymbolIndex.Watcher.Requests
