import Rationale.Protocol
import Rationale.Library.Ranking
import Rationale.Library.SortUniq
import Rationale.Library.Enumerate
import Rationale.Library.SimplePath
import Rationale.Kernel.Rules
import Rationale.Kernel.Proof
import Rationale.Kernel.Evaluator
import Rationale.Kernel.ActiveGraph
import Rationale.Kernel.Validate
import Rationale.Kernel.Traversal
import Rationale.Kernel.Verdict
import Rationale.Kernel.Chains
import Rationale.Library.Saturate
import Rationale.Store.Candidate
import Rationale.Library.Fallible
import Rationale.Store.Slice
import Rationale.Store.Publication
import Rationale.Docs.Ingest
import Rationale.Git.Evidence
import Rationale.GitHub.Normalize
import Rationale.Engine.Evidence
import Rationale.Engine.SnapshotId
import Rationale.Store.Invariant
import Rationale.Git.Target
import Rationale.Engine.Candidate
import Rationale.Engine.Ranking
import Rationale.Engine.Why
import Rationale.Engine.CandidateStage
import Rationale.Engine.Publish
import Rationale.Engine.PublishRun
import Rationale.Engine.Sync
import Rationale.Engine.Relationships
import Rationale.Docs.Definitions
import Rationale.GitHub.Contribution
import Rationale.Engine.SyncRun
import Rationale.Engine.Cursor
import Rationale.Engine.Plan
import Rationale.Engine.Repository
import Rationale.Engine.DocumentRun
import Rationale.Engine.CommitRun
import Rationale.Kernel.SubRequest
import Rationale.Engine.ProofSlice
import Rationale.Kernel.InputOrder
import Rationale.Engine.ProofInput
import Rationale.Engine.RequestOrder
import Rationale.Store.Statement
import Rationale.Store.Session
import Rationale.Store.RoundTrip
import Rationale.Engine.Concurrent
import Rationale.Engine.ConcurrentRun
import Rationale.Library.Json
import Rationale.Wire.Model
import Rationale.Wire.Exact
import Rationale.Wire.Serde
import Rationale.Wire.Serialized
import Rationale.Wire.Plain
import Rationale.Wire.Settled
import Rationale.Wire.Worker
import Rationale.Wire.Strictness
import Rationale.Library.Frame
import Rationale.Worker.Supervisor
import Rationale.Worker.Accounting
import Rationale.Worker.Framing
import Rationale.Worker.Loop
import Rationale.Worker.Evaluates
import Rationale.Worker.Exchange
import Rationale.Worker.Correlation
import Rationale.Kernel.Paths
import Rationale.Kernel.Gaps
import Rationale.Kernel.RawTraversal
import Rationale.Kernel.SameGraph
import Rationale.Kernel.Historical
import Rationale.Kernel.Certificate
import Rationale.Docs.Batch
import Rationale.Docs.Containment
import Rationale.Engine.Publishable
import Rationale.Engine.HostLimits
import Rationale.Engine.ReadBack
import Rationale.Library.PrefixCode
import Rationale.Engine.JsonText
import Rationale.Docs.Diagnostics
import Rationale.Engine.Identify
import Rationale.Docs.FrontMatter
import Rationale.Docs.Identifiers
import Rationale.Docs.Prose
import Rationale.Docs.Nesting
import Rationale.Git.TargetGrammar
import Rationale.Git.Path
import Rationale.Git.History
import Rationale.Git.References
import Rationale.Git.Resolve
import Rationale.Engine.Deferred
import Rationale.Engine.Explained
import Rationale.Store.PointReads
import Rationale.Git.WorkingChanges
import Rationale.Engine.Inspect
import Rationale.Engine.Refreshes
import Rationale.Engine.LocalRefresh
import Rationale.Cli.Commands
import Rationale.GitHub.Explicit
import Rationale.GitHub.Client
import Rationale.GitHub.FetchRun
import Rationale.Engine.Refresh
import Rationale.GitHub.LinkHeader
import Rationale.GitHub.Pagination
import Rationale.GitHub.Remote
import Rationale.GitHub.Confinement
import Rationale.GitHub.RateLimits
import Rationale.Library.Query
import Rationale.Library.Pool
import Rationale.Engine.StoreCalls
import Rationale.Engine.Clients
import Rationale.Engine.ClientProgress
import Rationale.Engine.ClientRuns
import Rationale.Library.Stack
import Rationale.Engine.DocumentScan
import Rationale.Engine.ScanRun
import Rationale.Engine.ScanAgreement
