import Rationale.Engine.ConcurrentRun
import Rationale.Engine.SyncRun
import Rationale.Engine.Why
import Rationale.Library.Pool
import Rationale.Library.Query
import Rationale.Store.Session
import Rationale.Text

namespace Rationale.Engine

open Std Rationale.Library Rationale.Git Rationale.GitHub Rationale.Store

/-!
# Engine calls, one store operation at a time

`Engine::why`, `search_candidates`, `sync_local`, `sync_with_github_client` and `publish_evidence` of
`crates/rationale-engine/src/lib.rs`, as other processes on the same database see them: each store
operation finds what was committed by then.

* `whyQuery`, `searchQuery`, `githubSyncQuery` — the reads of a call (`eval_whyQuery`: on a database
  that stays as it is they compute `why`);
* `readsOnce_whyQuery` — what `why` reads later is of the snapshot that it read first;
* `Phase.advance`, `PhaseStep` — the next store operation of `publish_evidence`, and what it can do;
* `step_eq_advance` — the processes of one publication take the steps of its calls.
-/

/-- Structured result of a candidate-only search. -/
structure CandidateSearchResult where
  query : String
  candidates : List CandidateView
  freshness : List FreshnessView
  deriving DecidableEq, Repr

/-- A computation with store operations. -/
abbrev StoreQuery := Query Database EngineError

/-! ### The engine's calls, one store operation at a time -/

section Queries

variable (hash : String → String) (timestamp : Int → Option String)
  (observedSecond : String → Option Int) (resolver : Resolver)
  (supervisor : KernelRequest → Except EngineError KernelResponse)

/-- `load_snapshot_records`: the count and the rows are two statements. -/
def snapshotRecordsQuery (snapshotId : String) (maxNodes : Nat) : StoreQuery (List EvidenceNode) := do
  Query.ask fun db =>
    (enforceLimit "nodes" (db.snapshot snapshotId).recordIds.size maxNodes).mapError EngineError.store
  Query.ask fun db => .ok (memberRecords db (db.snapshot snapshotId))

/-- The candidate stage of `why`. -/
def candidateQuery (snapshotId target : String) (parsed : TargetSpec) (evidence : ResolvedTarget)
    (response : KernelResponse) : StoreQuery (List CandidateView) :=
  if proofNeedsCandidates response then do
    let candidateEvidence ← (resolver.resolve parsed).mapError EngineError.git
    Query.ready
    let records ← snapshotRecordsQuery snapshotId candidateRecordLimit
    return candidatesForResponse observedSecond response target candidateEvidence records
  else return candidatesForResponse observedSecond response target evidence []

/-- What `why` does with the slice it has loaded. -/
def answerQuery (target : String) (parsed : TargetSpec) (evidence : ResolvedTarget) :
    Option GraphSlice → StoreQuery WhyResult
  | none => Query.done (.error .noSnapshot)
  | some slice => do
    let response ← supervisor (proofRequest hash timestamp target evidence slice)
    let candidates ← candidateQuery observedSecond resolver slice.snapshotId target parsed evidence
      response
    return ⟨target, response, candidates, freshnessViews slice.sources⟩

/-- `Engine::why`. -/
def whyQuery (target : String) : StoreQuery WhyResult := do
  validateInput target "target" maxTargetBytes
  let parsed ← (TargetSpec.fromStr target).mapError EngineError.git
  let evidence ← (resolver.resolveForProof parsed).mapError EngineError.git
  Query.ready
  let slice? ← Query.ask fun db =>
    (loadCurrentProofSlice db (proofSeedIds evidence) proofSliceLimits).mapError EngineError.store
  answerQuery hash timestamp observedSecond resolver supervisor target parsed evidence slice?

def maxCandidateQueryBytes : Nat := 4096

/-- The limits of the slice that `search_candidates` loads. -/
def searchLimits : SliceLimits := ⟨4000, 16384, 4096⟩

/-- `Engine::search_candidates`. -/
def searchCandidates (db : Database) (query : String) : Except EngineError CandidateSearchResult := do
  let query := String.ofList (Text.trim query.toList)
  validateInput query "candidate query" maxCandidateQueryBytes
  let slice? ← (loadCurrentSlice db searchLimits).mapError EngineError.store
  match slice? with
  | none => .error .noSnapshot
  | some slice =>
    return ⟨query, rankCandidates observedSecond ⟨query, query, none⟩ slice.nodes ∅,
      freshnessViews slice.sources⟩

/-- The store operations of `Engine::search_candidates`. -/
def searchQuery (query : String) : StoreQuery CandidateSearchResult := do
  let query := String.ofList (Text.trim query.toList)
  validateInput query "candidate query" maxCandidateQueryBytes
  Query.ready
  let slice? ← Query.ask fun db => (loadCurrentSlice db searchLimits).mapError EngineError.store
  match slice? with
  | none => Query.done (.error .noSnapshot)
  | some slice =>
    return ⟨query, rankCandidates observedSecond ⟨query, query, none⟩ slice.nodes ∅,
      freshnessViews slice.sources⟩

variable (parsers : Docs.Parsers)

/-- The prior contribution that `sync_with_github_client` starts from. -/
def priorQuery (sourceId : String) : StoreQuery PriorGitHubContribution := do
  Query.ready
  Query.ask fun db => priorGithubContribution db sourceId

/-- A GitHub synchronization up to `publish_evidence`: what GitHub answers depends on the cursor of the
    prior contribution. -/
def githubSyncQuery (inputs : LocalInputs) (repository : GitHubRepository)
    (outcome : PriorGitHubContribution → GitHubSyncOutcome) : StoreQuery Publication := do
  let prior ← priorQuery (sourceIdOf repository)
  return githubPublication hash timestamp parsers prior inputs repository (outcome prior)

/-- `Engine::sync_local` up to `publish_evidence`: no store operation. -/
def localSyncQuery (inputs : LocalInputs) : StoreQuery Publication :=
  return localPublication hash timestamp parsers inputs

end Queries

section Eval

variable {hash : String → String} {timestamp : Int → Option String}
  {observedSecond : String → Option Int} {resolver : Resolver}
  {supervisor : KernelRequest → Except EngineError KernelResponse} {parsers : Docs.Parsers}
  {db : Database}

theorem eval_snapshotRecordsQuery {snapshotId : String} {maxNodes : Nat} :
    (snapshotRecordsQuery snapshotId maxNodes).eval db =
      (loadSnapshotRecords db snapshotId maxNodes).mapError EngineError.store := by
  unfold snapshotRecordsQuery loadSnapshotRecords
  rw [Query.eval_bind, Query.eval_ask]
  cases enforceLimit "nodes" (db.snapshot snapshotId).recordIds.size maxNodes with
  | error e => rfl
  | ok u => rfl

theorem eval_candidateQuery {snapshotId target : String} {parsed : TargetSpec}
    {evidence : ResolvedTarget} {response : KernelResponse} :
    (candidateQuery observedSecond resolver snapshotId target parsed evidence response).eval db =
      candidateStage observedSecond resolver db snapshotId target parsed evidence response := by
  unfold candidateQuery candidateStage
  by_cases hneeds : proofNeedsCandidates response = true
  · rw [if_pos hneeds, if_pos hneeds]
    simp only [Query.eval_bind, Query.eval_lift, Query.eval_ready, pure_bind,
      eval_snapshotRecordsQuery]
    rfl
  · rw [if_neg hneeds, if_neg hneeds]
    rfl

/-- **On a database that stays as it is**, the store operations of `why` compute `why`. -/
theorem eval_whyQuery (target : String) :
    (whyQuery hash timestamp observedSecond resolver supervisor target).eval db =
      why hash timestamp observedSecond resolver supervisor db target := by
  unfold whyQuery why
  simp only [Query.eval_bind, Query.eval_lift, Query.eval_ready, pure_bind, Query.eval_ask]
  refine bind_congr (fun _ => bind_congr (fun parsed => bind_congr (fun evidence => ?_)))
  refine bind_congr (fun slice? => ?_)
  cases slice? with
  | none => rfl
  | some slice =>
    simp only [answerQuery, Query.eval_bind, Query.eval_lift, eval_candidateQuery]
    rfl

theorem eval_searchQuery (query : String) :
    (searchQuery observedSecond query).eval db = searchCandidates observedSecond db query := by
  unfold searchQuery searchCandidates
  simp only [Query.eval_bind, Query.eval_lift, Query.eval_ready, pure_bind, Query.eval_ask]
  refine bind_congr (fun _ => bind_congr (fun slice? => ?_))
  cases slice? with
  | none => rfl
  | some slice => rfl

/-- The rows of a published snapshot are read later as they are now. -/
theorem settled_snapshotRecordsQuery (hv : Valid db) {snapshotId : String} {maxNodes : Nat}
    (hid : snapshotId ∈ db.snapshots) :
    (snapshotRecordsQuery snapshotId maxNodes).Settled Later db := by
  refine Query.Settled.bind (Query.settled_ask (fun t ht => ?_)) (fun _ _ => ?_)
  · rw [ht.snapshot_eq hid]
  · refine Query.settled_ask (fun t ht => ?_)
    have hslice := congrArg GraphSlice.nodes (ht.snapshotSlice_eq hv hid)
    exact congrArg Except.ok hslice

/-- **`why` reads the current pointer once**: what it reads later is of the same snapshot. -/
theorem readsOnce_whyQuery (target : String) :
    (whyQuery hash timestamp observedSecond resolver supervisor target).ReadsOnce Later Valid := by
  refine Query.ReadsOnce.bind_done (fun _ => ?_)
  refine Query.ReadsOnce.bind_done (fun parsed => ?_)
  refine Query.ReadsOnce.bind_done (fun evidence => ?_)
  refine Query.ReadsOnce.bind_ask (fun db hv slice? hslice => ?_)
  cases slice? with
  | none => trivial
  | some slice =>
    -- the slice is of a published snapshot
    have hload := mapError_eq_ok.mp hslice
    obtain ⟨id, hid, -, -, -, -, hreached⟩ := loadCurrentProofSlice_eq_ok.mp hload
    have hmem : slice.snapshotId ∈ db.snapshots := by
      rw [hreached]
      exact hv.current id hid
    refine Query.Settled.bind trivial (fun response _ => Query.Settled.bind ?_ (fun _ _ => trivial))
    unfold candidateQuery
    split
    · refine Query.Settled.bind trivial (fun candidateEvidence _ => ?_)
      refine Query.Settled.bind trivial (fun _ _ => ?_)
      exact Query.Settled.bind (settled_snapshotRecordsQuery hv hmem) (fun _ _ => trivial)
    · trivial

/-- A candidate search is one read. -/
theorem readsOnce_searchQuery (query : String) :
    (searchQuery observedSecond query).ReadsOnce Later Valid := by
  refine Query.ReadsOnce.bind_done (fun _ => ?_)
  refine Query.ReadsOnce.bind_ask (fun db _ slice? _ => ?_)
  cases slice? with
  | none => trivial
  | some slice => trivial

/-- A GitHub synchronization starts from one read. -/
theorem readsOnce_githubSyncQuery {inputs : LocalInputs} {repository : GitHubRepository}
    {outcome : PriorGitHubContribution → GitHubSyncOutcome} :
    (githubSyncQuery hash timestamp parsers inputs repository outcome).ReadsOnce Later Valid :=
  fun _ _ => Query.Settled.bind (f := fun _ => pure _) trivial (fun _ _ => trivial)

/-- What a GitHub synchronization publishes is built on the prior contribution that it reads. -/
theorem eval_githubSyncQuery {inputs : LocalInputs} {repository : GitHubRepository}
    {outcome : PriorGitHubContribution → GitHubSyncOutcome} {p : Publication} :
    (githubSyncQuery hash timestamp parsers inputs repository outcome).eval db = .ok p ↔
      ∃ prior, priorGithubContribution db (sourceIdOf repository) = .ok prior ∧
        p = githubPublication hash timestamp parsers prior inputs repository (outcome prior) := by
  unfold githubSyncQuery priorQuery
  simp only [Query.eval_bind, Query.eval_ready, pure_bind, Query.eval_ask]
  rw [bind_eq_ok]
  refine exists_congr (fun prior => and_congr_right (fun _ => ?_))
  constructor
  · exact fun h => (Except.ok.inj h).symm
  · exact fun h => congrArg Except.ok h.symm

end Eval

/-! ### The store operations of `publish_evidence` -/

namespace Publication

/-- What a call of `publish_evidence` reports. -/
def report (hash : String → String) (p : Publication) (unchanged : Bool) : SyncReport :=
  processReport hash p.evidence p.sources (fun _ : Fin 1 => p.historyComplete)
    (fun _ => p.githubRateLimit) 0 unchanged

/-- The statements that fill the publication's candidate. -/
def statements (p : Publication) : List Statement :=
  evidenceStatements p.evidence.sorted (sortSources p.sources)

/-- The database after the publication alone, whatever is current. -/
def publishNew (hash : String → String) (p : Publication) (db : Database) :
    Except StoreError Database :=
  Engine.publishNew hash p.evidence p.sources db

end Publication

/-- The next store operation of a call of `publish_evidence`. -/
def Phase.advance (hash : String → String) (p : Publication) (locked : Bool) (db : Database) :
    Phase → Database × Phase
  | .start => (db, if locked then .start else .opened)
  | .opened =>
    (db, if currentSnapshotId db = some (p.snapshotId hash) then .done (.ok (p.report hash true))
      else .outdated)
  | .outdated =>
    if locked then (db, .outdated)
    else match beginCandidate db (p.snapshotId hash) with
      | .error e => (db, .done (.error (.store e)))
      | .ok candidate => (db, .writing candidate p.statements)
  | .writing candidate (statement :: remaining) =>
    match candidate.execute statement with
    | .error e => (db, .done (.error (.store e)))
    | .ok candidate => (db, .writing candidate remaining)
  | .writing candidate [] =>
    match candidate.publish with
    | .error e => (db, .done (.error (.store e)))
    | .ok committed => (committed, .done (.ok (p.report hash false)))
  | .done result => (db, .done result)

/-- The reasons for each step of a call. -/
inductive PhaseStep (hash : String → String) (p : Publication) (locked : Bool) (db : Database) :
    Phase → Database × Phase → Prop where
  | waits (phase : Phase) (h : phase.isWriting = false) : PhaseStep hash p locked db phase (db, phase)
  | opens : PhaseStep hash p locked db .start (db, .opened)
  | reuses (h : db.current = some (p.snapshotId hash)) :
      PhaseStep hash p locked db .opened (db, .done (.ok (p.report hash true)))
  | isOutdated : PhaseStep hash p locked db .opened (db, .outdated)
  | begins {candidate : CandidateSnapshot} (hfree : locked = false)
      (h : beginCandidate db (p.snapshotId hash) = .ok candidate) :
      PhaseStep hash p locked db .outdated (db, .writing candidate p.statements)
  | isRejected {e : StoreError} (h : beginCandidate db (p.snapshotId hash) = .error e) :
      PhaseStep hash p locked db .outdated (db, .done (.error (.store e)))
  | executes {candidate next : CandidateSnapshot} {statement : Statement}
      {remaining : List Statement} (h : candidate.execute statement = .ok next) :
      PhaseStep hash p locked db (.writing candidate (statement :: remaining))
        (db, .writing next remaining)
  | fails {candidate : CandidateSnapshot} {statement : Statement} {remaining : List Statement}
      {e : StoreError} (h : candidate.execute statement = .error e) :
      PhaseStep hash p locked db (.writing candidate (statement :: remaining))
        (db, .done (.error (.store e)))
  | publishes {candidate : CandidateSnapshot} {committed : Database}
      (h : candidate.publish = .ok committed) :
      PhaseStep hash p locked db (.writing candidate []) (committed, .done (.ok (p.report hash false)))
  | isNotPublished {candidate : CandidateSnapshot} {e : StoreError} (h : candidate.publish = .error e) :
      PhaseStep hash p locked db (.writing candidate []) (db, .done (.error (.store e)))

/-- Every step of a call has one of these reasons. -/
theorem phaseStep_advance (hash : String → String) (p : Publication) (locked : Bool) (db : Database)
    (phase : Phase) : PhaseStep hash p locked db phase (phase.advance hash p locked db) := by
  cases phase with
  | start =>
    cases locked with
    | true => exact .waits _ rfl
    | false => exact .opens
  | opened =>
    show PhaseStep hash p locked db .opened (db, if _ then _ else _)
    split
    next hcurrent => exact .reuses hcurrent
    next => exact .isOutdated
  | outdated =>
    cases locked with
    | true => exact .waits _ rfl
    | false =>
      simp only [Phase.advance]
      -- the write lock is free: begin the candidate
      cases hbegin : beginCandidate db (p.snapshotId hash) with
      | error e => exact .isRejected hbegin
      | ok candidate => exact .begins rfl hbegin
  | writing candidate remaining =>
    cases remaining with
    | nil =>
      simp only [Phase.advance]
      cases hpublish : candidate.publish with
      | error e => exact .isNotPublished hpublish
      | ok committed => exact .publishes hpublish
    | cons statement remaining =>
      simp only [Phase.advance]
      cases hexecute : candidate.execute statement with
      | error e => exact .fails hexecute
      | ok next => exact .executes hexecute
  | done result => exact .waits _ rfl

/-- **The processes of one publication** take the steps of its calls. -/
theorem step_eq_advance {hash : String → String} {evidence : PreparedEvidence}
    {sources : List SourceState} {n : Nat} {historyComplete : Fin n → Bool}
    {githubRateLimit : Fin n → Option GitHubRateLimitView} (s : Processes n) (i : Fin n) :
    s.step hash evidence sources historyComplete githubRateLimit i =
      let p : Publication := ⟨evidence, sources, historyComplete i, githubRateLimit i⟩
      let (committed, phase) := (s.phases i).advance hash p s.locked s.committed
      ({ s with committed } : Processes n).setPhase i phase := by
  -- a process that waits is set to the phase it is in
  have hsame : s.setPhase i (s.phases i) = s := by
    unfold Processes.setPhase
    rw [Function.update_eq_self]
  cases hphase : s.phases i with
  | start =>
    rw [hphase] at hsame
    simp only [Processes.step, hphase, Phase.advance]
    split
    · exact hsame.symm
    · rfl
  | opened =>
    let p : Publication := ⟨evidence, sources, historyComplete i, githubRateLimit i⟩
    by_cases hcurrent : currentSnapshotId s.committed = some (snapshotIdOf hash evidence sources)
    · have hp : currentSnapshotId s.committed = some (p.snapshotId hash) := hcurrent
      simp only [Processes.step, hphase, Phase.advance, if_pos hcurrent, if_pos hp, p]
      rfl
    · have hp : currentSnapshotId s.committed ≠ some (p.snapshotId hash) := hcurrent
      simp only [Processes.step, hphase, Phase.advance, if_neg hcurrent, if_neg hp, p]
  | outdated =>
    rw [hphase] at hsame
    simp only [Processes.step, hphase, Phase.advance, Publication.snapshotId]
    split
    · exact hsame.symm
    · cases beginCandidate s.committed (snapshotIdOf hash evidence sources) with
      | error e => rfl
      | ok candidate => rfl
  | writing candidate remaining =>
    cases remaining with
    | nil =>
      simp only [Processes.step, hphase, Phase.advance]
      cases candidate.publish with
      | error e => rfl
      | ok committed => rfl
    | cons statement remaining =>
      simp only [Processes.step, hphase, Phase.advance]
      cases candidate.execute statement with
      | error e => rfl
      | ok next => rfl
  | done result =>
    rw [hphase] at hsame
    simp only [Processes.step, hphase, Phase.advance]
    exact hsame.symm

end Rationale.Engine
