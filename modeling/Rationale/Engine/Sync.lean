import Rationale.Engine.PublishRun
import Rationale.GitHub.Normalize

namespace Rationale.Engine

open Std Rationale.Library Rationale.Docs Rationale.Git Rationale.GitHub Rationale.Store

/-!
# Synchronization

`Engine::sync_local` and `Engine::sync_with_github_client` of `crates/rationale-engine/src/lib.rs`.

* `prepareLocalSync` — the local evidence, from what Git and the file system hold;
* `priorGithubContribution` — the forge evidence of the current snapshot;
* `localPublication`, `githubPublication` — what a call publishes;
* `syncLocal`, `syncWithGithubClient` — the two entry points.

Git, the file system, the clock and GitHub are other programs: `LocalInputs` holds what the first
three answer during one call, and `GitHubSyncOutcome` what the last one does.
-/

/-- What Git, the file system and the clock hold during one call. -/
structure LocalInputs where
  history : CommitHistory
  documents : List DocumentInput
  /-- Diagnostics of `collect_documents`. -/
  diagnostics : List IngestDiagnostic
  now : String

structure LocalSync where
  evidence : PreparedEvidence
  historyComplete : Bool
  head : String
  documentsCursor : String

/-- What `GitHubClient::synchronize` answers.  `build_evidence` normalizes the items and commits of
    an update; cursors are in their encoded form. -/
inductive GitHubSyncOutcome where
  /-- GitHub supplied a new contribution. -/
  | updated (items : List ApiItem) (commits : Nat → List ApiCommit) (cursor : String)
      (rateLimit : GitHubRateLimitView)
  /-- The prior contribution is still current, and so is the caller's cursor. -/
  | notModified (rateLimit : GitHubRateLimitView)
  /-- The refresh failed. -/
  | failed

structure PriorGitHubContribution where
  records : List EvidenceNode
  edges : List EvidenceEdge
  source : Option SourceState

def PriorGitHubContribution.default : PriorGitHubContribution := ⟨[], [], none⟩

/-- `GitHubCursor::default().encode()`. -/
def defaultCursor : String := jsonObject [jsonField "issues_etag" "null"]

def sourceIdOf (repository : GitHubRepository) : String := "github:" ++ repository.slug

section Local

variable (hash : String → String) (timestamp : Int → Option String) (parsers : Parsers)

def localInputsId (commits : List CommitEvidence) (documents : List DocumentInput) : String :=
  "inputs:" ++ hash ("rationale-local-inputs-v1\x00"
    ++ String.join (commits.map fun commit => commit.id ++ "\x00")
    ++ String.join (documents.map fun document =>
      document.path ++ "\x00" ++ document.content ++ "\x00"))

def prepareLocalSync (inputs : LocalInputs) : LocalSync where
  evidence := prepareEvidence hash timestamp inputs.history.commits
    (ingest hash parsers IngestConfig.default inputs.documents) inputs.diagnostics
  historyComplete := inputs.history.complete
  head := (inputs.history.commits.head?.map (·.id)).getD ""
  documentsCursor := localInputsId hash inputs.history.commits inputs.documents

def localSources (localSync : LocalSync) (observedAt : String) : List SourceState :=
  [{ sourceId := "local-git"
     sourceKind := .git
     freshness := if localSync.historyComplete then .fresh else .stale
     observedAt
     cursor := some localSync.head },
   { sourceId := "repository-documents"
     sourceKind := .document
     freshness := .fresh
     observedAt
     cursor := some localSync.documentsCursor }]

/-- What `sync_local` publishes. -/
def localPublication (inputs : LocalInputs) : Publication where
  evidence := (prepareLocalSync hash timestamp parsers inputs).evidence
  sources := localSources (prepareLocalSync hash timestamp parsers inputs) inputs.now
  historyComplete := inputs.history.complete
  githubRateLimit := none

end Local

/-! ### GitHub -/

def isGithubNode (node : EvidenceNode) : Bool := node.origin.sourceKind = .github

def isGithubEdge (edge : EvidenceEdge) : Bool := edge.origin.sourceKind = .github

/-- The forge evidence of a loaded slice, and the state of one source. -/
def priorOfSlice (sourceId : String) (slice : GraphSlice) : PriorGitHubContribution where
  records := slice.nodes.filter isGithubNode
  edges := slice.edges.filter isGithubEdge
  source := slice.sources.find? (·.sourceId = sourceId)

def priorLimits : SliceLimits := ⟨100000, 100000, 100000⟩

/-- The same before the first snapshot: nothing. -/
def priorOf (sourceId : String) : Option GraphSlice → PriorGitHubContribution
  | none => .default
  | some slice => priorOfSlice sourceId slice

def priorGithubContribution (db : Database) (sourceId : String) :
    Except EngineError PriorGitHubContribution :=
  ((loadCurrentSlice db priorLimits).mapError EngineError.store).map (priorOf sourceId)

/-- The records and edges that a call merges: the new contribution, or the prior one. -/
def mergedContribution (hash : String → String) (prior : PriorGitHubContribution)
    (repository : GitHubRepository) : GitHubSyncOutcome → Contribution
  | .updated items commits _ _ => buildEvidence hash repository items commits
  | .notModified _ | .failed => ⟨prior.records, prior.edges⟩

/-- The state of the GitHub source after a call. -/
def githubSource (prior : PriorGitHubContribution) (repository : GitHubRepository) (now : String) :
    GitHubSyncOutcome → SourceState
  | .updated _ _ cursor _ => ⟨sourceIdOf repository, .github, .fresh, now, some cursor⟩
  | .notModified _ => ⟨sourceIdOf repository, .github, .fresh, now,
      some ((prior.source.bind (·.cursor)).getD defaultCursor)⟩
  | .failed => ⟨sourceIdOf repository, .github, .stale,
      (prior.source.map (·.observedAt)).getD now, prior.source.bind (·.cursor)⟩

/-- A failed refresh is reported. -/
def githubDiagnostics (prior : PriorGitHubContribution) (repository : GitHubRepository) :
    GitHubSyncOutcome → List IngestDiagnostic
  | .updated _ _ _ _ | .notModified _ => []
  | .failed => [⟨sourceIdOf repository, "github_unavailable",
      if prior.source.isSome then
        "GitHub synchronization failed; retained the last valid contribution"
      else "GitHub synchronization failed; no prior contribution was available"⟩]

def GitHubSyncOutcome.rateLimit : GitHubSyncOutcome → Option GitHubRateLimitView
  | .updated _ _ _ rateLimit | .notModified rateLimit => some rateLimit
  | .failed => none

/-- Evidence with further diagnostics. -/
def PreparedEvidence.diagnose (evidence : PreparedEvidence)
    (diagnostics : List IngestDiagnostic) : PreparedEvidence :=
  { evidence with diagnostics := evidence.diagnostics ++ diagnostics }

section GitHub

variable (hash : String → String) (timestamp : Int → Option String) (parsers : Parsers)

/-- The local evidence with a contribution on top. -/
def combinedEvidence (inputs : LocalInputs) (contribution : Contribution) : PreparedEvidence :=
  mergeGithubEvidence (prepareLocalSync hash timestamp parsers inputs).evidence
    contribution.records contribution.edges

/-- What `sync_with_github_client` publishes, given the prior contribution and GitHub's answer. -/
def githubPublication (prior : PriorGitHubContribution) (inputs : LocalInputs)
    (repository : GitHubRepository) (outcome : GitHubSyncOutcome) : Publication where
  evidence := (combinedEvidence hash timestamp parsers inputs
    (mergedContribution hash prior repository outcome)).diagnose
      (githubDiagnostics prior repository outcome)
  sources := localSources (prepareLocalSync hash timestamp parsers inputs) inputs.now
    ++ [githubSource prior repository inputs.now outcome]
  historyComplete := inputs.history.complete
  githubRateLimit := outcome.rateLimit

/-- Build and atomically publish a deterministic local-only snapshot. -/
def syncLocal (db : Database) (inputs : LocalInputs) : Except EngineError (SyncReport × Database) :=
  let publication := localPublication hash timestamp parsers inputs
  publishEvidence hash db publication.evidence publication.sources publication.historyComplete
    publication.githubRateLimit

/-- Build and atomically publish a combined local and GitHub snapshot. -/
def syncWithGithubClient (db : Database) (inputs : LocalInputs) (repository : GitHubRepository)
    (outcome : GitHubSyncOutcome) : Except EngineError (SyncReport × Database) := do
  let prior ← priorGithubContribution db (sourceIdOf repository)
  let publication := githubPublication hash timestamp parsers prior inputs repository outcome
  publishEvidence hash db publication.evidence publication.sources publication.historyComplete
    publication.githubRateLimit

/-! ### Runs -/

/-- One synchronization call. -/
inductive SyncCall where
  | offline (inputs : LocalInputs)
  | online (inputs : LocalInputs) (repository : GitHubRepository) (outcome : GitHubSyncOutcome)

/-- Run one call. -/
def SyncCall.run (db : Database) : SyncCall → Except EngineError (SyncReport × Database)
  | .offline inputs => syncLocal hash timestamp parsers db inputs
  | .online inputs repository outcome =>
      syncWithGithubClient hash timestamp parsers db inputs repository outcome

/-- The database after a call; one that fails changes nothing. -/
def SyncCall.after (db : Database) (call : SyncCall) : Database :=
  match call.run hash timestamp parsers db with
  | .ok (_, db') => db'
  | .error _ => db

/-- What a call publishes, given the slice that was current before it. -/
def SyncCall.publication (before : Option GraphSlice) : SyncCall → Publication
  | .offline inputs => localPublication hash timestamp parsers inputs
  | .online inputs repository outcome =>
      githubPublication hash timestamp parsers (priorOf (sourceIdOf repository) before) inputs
        repository outcome

end GitHub

end Rationale.Engine
