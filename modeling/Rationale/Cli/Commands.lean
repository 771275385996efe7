import Rationale.Engine.Explained
import Rationale.Engine.Inspect
import Rationale.GitHub.Remote

namespace Rationale.Cli

open Std Rationale.Library Rationale.Docs Rationale.Git Rationale.Store
  Rationale.Engine
open Rationale.GitHub (GitHubRepository fromRemote)

/-!
# The command line

`main`, `run` and the exit codes of `crates/rationale-cli/src/main.rs`, with the parts of the engine
that only it calls.  What other programs answer during one invocation is an `Environment`.

* `invoke`, `session` — one invocation, and one after the other in a repository;
* `session_sound` — the invariant of a session;
* `runSync_exit`, `invoke_gaps` — what the exit codes of `sync` and `gaps` say;
* `session_why` — what the exit codes of `why` say, in every session;
* `session_show` — what `show` finds, in every session.
-/

/-! ### Exit codes -/

def exitOk : UInt8 := 0

def exitOperational : UInt8 := 1

def exitMissingRationale : UInt8 := 2

def exitConflict : UInt8 := 3

def exitInvalidInput : UInt8 := 4

def exitStale : UInt8 := 5

def exitProofUnavailable : UInt8 := 6

/-- Whether at least one source contribution was stale. -/
def hasStaleSource (result : WhyResult) : Bool := result.freshness.any (·.freshness = "stale")

def whyExit (result : WhyResult) : UInt8 :=
  if hasStaleSource result then exitStale
  else match result.response with
    | .proof _ _ _ proof => match proof.verdict with
      | .established => exitOk
      | .partialProof | .notEstablished => exitMissingRationale
      | .conflicted => exitConflict
    | .error _ _ _ => exitInvalidInput

def errorExit : EngineError → UInt8
  | .proofUnavailable _ => exitProofUnavailable
  | .git _ | .github _ | .invalidQuery _ => exitInvalidInput
  | .noSnapshot => exitMissingRationale
  | .store _ | .io _ | .scanLimit _ => exitOperational

def syncExit (report : SyncReport) : UInt8 :=
  if report.staleSources = [] then exitOk else exitStale

def showExit : Option EvidenceNode → UInt8
  | some _ => exitOk
  | none => exitMissingRationale

def gapsExit (gaps : List ChangedGap) : UInt8 := if gaps = [] then exitOk else exitMissingRationale

/-! ### Invocations -/

/-- What other programs answer during one invocation. -/
structure Environment where
  /-- `Engine::discover`. -/
  discover : Except EngineError Unit
  /-- Git history and repository documents. -/
  inputs : Except EngineError LocalInputs
  /-- `GitHubClient::from_environment`, or `with_api_base`. -/
  client : Except EngineError Unit
  /-- The URL of the remote `origin`, if it has one. -/
  originUrl : Except EngineError (Option String)
  /-- `GitHubClient::synchronize`, from the stored cursor. -/
  synchronize : GitHubRepository → Option String → GitHubSyncOutcome
  resolver : Resolver
  supervisor : KernelRequest → Except EngineError KernelResponse
  statuses : Except GitEvidenceError (List StatusEntry)
  /-- The MCP server until its client disconnects. -/
  serve : Except String Unit

inductive Commands where
  | sync (localOnly : Bool)
  | why (target : String)
  | showRecord (recordId : String)
  | gaps
  | serve

/-- A repository between invocations. -/
structure Host where
  /-- Whether there is a database file. -/
  isFile : Bool
  db : Database
  /-- What the current snapshot was published from; nothing reads it. -/
  published : Option Publication

def Host.initial : Host := ⟨false, Database.empty, none⟩

def Host.database (host : Host) : Option Database := if host.isFile then some host.db else none

structure Parameters where
  hash : String → String
  timestamp : Int → Option String
  observedSecond : String → Option Int
  parsers : Parsers

section Invoke

variable (params : Parameters) (env : Environment) (host : Host)

/-- What `run_sync` gathers before anything is published. -/
def syncCall (localOnly : Bool) : Except EngineError SyncCall :=
  if localOnly then return .offline (← env.inputs)
  else do
    env.client
    match ← env.originUrl with
    | none => throw (.github "invalid GitHub remote: repository has no origin remote")
    | some url =>
      let repository ← (fromRemote url).mapError fun error =>
        EngineError.github ("invalid GitHub remote: " ++ error.detail)
      let inputs ← env.inputs
      let prior ← priorGithubContribution host.db (sourceIdOf repository)
      return .online inputs repository (env.synchronize repository (prior.source.bind (·.cursor)))

/-- The database and the snapshot after a publication, or after one that failed. -/
def Host.afterRun (call : SyncCall) : Except EngineError (SyncReport × Database) → Host
  | .error _ => { host with isFile := true }
  | .ok (report, db) =>
    ⟨true, db, if report.unchanged then host.published
      else some (call.publication params.hash params.timestamp params.parsers (currentSlice host.db))⟩

def runSync (localOnly : Bool) : Except EngineError UInt8 × Host :=
  match syncCall env host localOnly with
  | .error error => (.error error, host)
  | .ok call =>
    let result := call.run params.hash params.timestamp params.parsers host.db
    (result.map (syncExit ·.1), host.afterRun params call result)

def runWhy (target : String) : Except EngineError WhyResult :=
  if host.isFile then
    why params.hash params.timestamp params.observedSecond env.resolver env.supervisor host.db target
  else do
    validateInput target "target" maxTargetBytes
    let parsed ← (TargetSpec.fromStr target).mapError .git
    let _ ← (env.resolver.resolveForProof parsed).mapError EngineError.git
    throw .noSnapshot

def run : Commands → Except EngineError UInt8 × Host
  | .sync localOnly => runSync params env host localOnly
  | .why target => ((runWhy params env host target).map whyExit, host)
  | .showRecord recordId => ((showRecord host.database recordId).map showExit, host)
  | .gaps => ((gapsChanged env.statuses).map gapsExit, host)
  | .serve => ((env.serve.mapError EngineError.io).map fun _ => exitOk, host)

/-- The exit code of the process. -/
def exitCode : Except EngineError UInt8 → UInt8
  | .ok code => code
  | .error error => errorExit error

/-- One invocation of the program. -/
def invoke (command : Commands) : UInt8 × Host :=
  match env.discover with
  | .error error => (errorExit error, host)
  | .ok _ => (exitCode (run params env host command).1, (run params env host command).2)

/-- Invocations, one after the other, in a new repository. -/
def session (invocations : List (Environment × Commands)) : Host :=
  invocations.foldl (fun host invocation => (invoke params invocation.1 host invocation.2).2)
    Host.initial

end Invoke

/-! ### The invariant -/

section Session

variable {params : Parameters} {env : Environment} {host : Host}

/-- Between invocations the current snapshot is what was published last, and without a file nothing
    was. -/
structure Host.Sound (hash : String → String) (host : Host) : Prop where
  presents : Presents hash host.db host.published
  unopened : host.isFile = false → host.db = Database.empty ∧ host.published = none

theorem Host.Sound.afterRun (h : host.Sound params.hash) (call : SyncCall) :
    (host.afterRun params call
      (call.run params.hash params.timestamp params.parsers host.db)).Sound params.hash := by
  cases hrun : call.run params.hash params.timestamp params.parsers host.db with
  | error error => exact ⟨h.presents, nofun⟩
  | ok result => exact ⟨h.presents.next hrun, nofun⟩

/-- **One invocation.** -/
theorem Host.Sound.invoke (h : host.Sound params.hash) (command : Commands) :
    (invoke params env host command).2.Sound params.hash := by
  unfold Cli.invoke
  cases env.discover with
  | error error => exact h
  | ok _ =>
    cases command with
    | sync localOnly =>
      show (runSync params env host localOnly).2.Sound params.hash
      unfold runSync
      cases syncCall env host localOnly with
      | error error => exact h
      | ok call => exact h.afterRun call
    | why target => exact h
    | showRecord recordId => exact h
    | gaps => exact h
    | serve => exact h

/-- **Every session.** -/
theorem session_sound (invocations : List (Environment × Commands)) :
    (session params invocations).Sound params.hash := by
  have hrun : ∀ host : Host, host.Sound params.hash →
      (invocations.foldl (fun host invocation => (Cli.invoke params invocation.1 host invocation.2).2)
        host).Sound params.hash := by
    induction invocations with
    | nil => exact fun _ h => h
    | cons invocation invocations ih => exact fun host h => ih _ (h.invoke invocation.2)
  exact hrun Host.initial ⟨presents_empty, fun _ => ⟨rfl, rfl⟩⟩

end Session

/-! ### The exit codes of `sync` and `gaps` -/

section Codes

variable {params : Parameters} {env : Environment} {host host' : Host}

/-- The last publication had fresh sources only. -/
def PublishedFresh (host : Host) : Prop :=
  ∃ p, host.published = some p ∧ ∀ source ∈ p.sources, source.freshness = .fresh

/-- A synchronization that publishes anew reports stale sources exactly when it published one. -/
theorem runSync_exit {localOnly : Bool} {code : UInt8}
    (h : runSync params env host localOnly = (.ok code, host')) (hnew : host'.db ≠ host.db) :
    code = exitOk ∧ PublishedFresh host' ∨ code = exitStale ∧ ¬ PublishedFresh host' := by
  unfold runSync at h
  cases hcall : syncCall env host localOnly with
  | error error =>
    rw [hcall] at h
    exact nomatch (Prod.mk.inj h).1
  | ok call =>
    rw [hcall] at h
    obtain ⟨hcode, hhost⟩ := Prod.mk.inj h
    obtain ⟨⟨report, db⟩, hrun, rfl⟩ := map_eq_ok.mp hcode
    rw [hrun] at hhost
    obtain ⟨hstale, ⟨-, rfl⟩ | ⟨hchanged, -, -⟩⟩ := run_effect hrun
    · exact absurd (congrArg Host.db hhost).symm hnew
    have hpublished : host'.published = some (call.publication params.hash params.timestamp
        params.parsers (currentSlice host.db)) := by
      rw [← hhost]
      show (if report.unchanged then _ else _) = _
      rw [hchanged]
      rfl
    have hfresh : PublishedFresh host' ↔ report.staleSources = [] := by
      unfold PublishedFresh
      rw [hpublished, hstale]
      simp only [Option.some.injEq, exists_eq_left']
    rw [hfresh]
    unfold syncExit
    dsimp only
    by_cases hnil : report.staleSources = []
    · exact Or.inl ⟨if_pos hnil, hnil⟩
    · exact Or.inr ⟨if_neg hnil, hnil⟩

/-- No error has the exit code of an answer that needs no candidates, or of a stale one. -/
theorem errorExit_ne (error : EngineError) :
    errorExit error ≠ exitOk ∧ errorExit error ≠ exitConflict ∧ errorExit error ≠ exitStale := by
  cases error <;> refine ⟨?_, ?_, ?_⟩ <;> rw [errorExit] <;> decide

/-- `gaps` finds nothing exactly when nothing but the evidence database changed. -/
theorem invoke_gaps {statuses : List StatusEntry} (hdiscover : env.discover = .ok ())
    (hstatuses : env.statuses = .ok statuses) : (invoke params env host .gaps).1 = exitOk ↔
      ∀ entry ∈ statuses, ∃ path, entry.path = some path ∧ isRationalePath path = true := by
  rw [← gapsChanged_eq_nil_iff]
  unfold invoke
  rw [hdiscover]
  show exitCode ((gapsChanged env.statuses).map gapsExit) = exitOk ↔ _
  rw [hstatuses]
  cases gapsChanged (.ok statuses) with
  | error error => exact iff_of_false (errorExit_ne error).1 nofun
  | ok gaps =>
    show (if gaps = [] then exitOk else exitMissingRationale) = exitOk ↔ _
    by_cases hnil : gaps = []
    · rw [if_pos hnil, hnil]
      exact iff_of_true rfl rfl
    · rw [if_neg hnil]
      exact iff_of_false (by decide) fun h => hnil (Except.ok.inj h)

end Codes

/-! ### What the exit codes of `why` say -/

/-- The kernel answers the request with a proof. -/
def Decided (request : KernelRequest) : Prop :=
  Kernel.Validated request ∧ ¬ Kernel.HitsPathStateLimit request

/-- What the evidence of a request amounts to, as an exit code. -/
inductive Standing (request : KernelRequest) : UInt8 → Prop where
  | undecided (undecided : ¬ Decided request) : Standing request exitInvalidInput
  | conflicted (decided : Decided request)
      (conflict : ∃ conflict, Kernel.MaterialConflict request conflict) :
      Standing request exitConflict
  | explained (decided : Decided request)
      (agreed : ¬ ∃ conflict, Kernel.MaterialConflict request conflict)
      (path : ∃ nodeIds edges, Kernel.AnchorPath request nodeIds edges) : Standing request exitOk
  | unexplained (decided : Decided request)
      (agreed : ¬ ∃ conflict, Kernel.MaterialConflict request conflict)
      (noPath : ¬ ∃ nodeIds edges, Kernel.AnchorPath request nodeIds edges) :
      Standing request exitMissingRationale

theorem Standing.unique {request : KernelRequest} {code code' : UInt8} (h : Standing request code)
    (h' : Standing request code') : code = code' := by
  cases h with
  | undecided hundecided =>
    cases h' with
    | undecided => rfl
    | conflicted hdecided => exact absurd hdecided hundecided
    | explained hdecided => exact absurd hdecided hundecided
    | unexplained hdecided => exact absurd hdecided hundecided
  | conflicted hdecided hconflict =>
    cases h' with
    | undecided hundecided => exact absurd hdecided hundecided
    | conflicted => rfl
    | explained _ hagreed => exact absurd hconflict hagreed
    | unexplained _ hagreed => exact absurd hconflict hagreed
  | explained hdecided hagreed hpath =>
    cases h' with
    | undecided hundecided => exact absurd hdecided hundecided
    | conflicted _ hconflict => exact absurd hconflict hagreed
    | explained => rfl
    | unexplained _ _ hnone => exact absurd hpath hnone
  | unexplained hdecided hagreed hnone =>
    cases h' with
    | undecided hundecided => exact absurd hdecided hundecided
    | conflicted _ hconflict => exact absurd hconflict hagreed
    | explained _ _ hpath => exact absurd hpath hnone
    | unexplained => rfl

theorem evaluate_isProof_iff {request : KernelRequest} : Decided request ↔
    ∃ version requestId snapshotId proof,
      Kernel.evaluate request = some (.proof version requestId snapshotId proof) := by
  constructor
  · rintro ⟨hv, hlimit⟩
    cases htraversal : Kernel.traversalOf request with
    | error failure =>
      exact absurd (htraversal.trans (congrArg _ (Kernel.traversalOf_error hv htraversal))) hlimit
    | ok traversal =>
      obtain ⟨proof, hproof, -⟩ := Kernel.verdictSpec_of_traversal hv htraversal
      exact ⟨_, _, _, proof, hproof⟩
  · rintro ⟨version, requestId, snapshotId, proof, hproof⟩
    obtain ⟨hv, traversal, htraversal, -⟩ := Kernel.evaluate_eq_proof hproof
    exact ⟨hv, fun hlimit => nomatch htraversal.symm.trans hlimit⟩

section Why

variable {params : Parameters} {env : Environment} {host : Host} {target : String}

/-- What `why` asks the kernel, which answers. -/
def Asks (params : Parameters) (env : Environment) (host : Host) (target : String)
    (request : KernelRequest) : Prop :=
  validateInput target "target" maxTargetBytes = .ok () ∧ host.isFile = true ∧
  ∃ parsed evidence slice response, TargetSpec.fromStr target = .ok parsed ∧
    env.resolver.resolveForProof parsed = .ok evidence ∧
    loadCurrentProofSlice host.db (proofSeedIds evidence) proofSliceLimits = .ok (some slice) ∧
    request = proofRequest params.hash params.timestamp target evidence slice ∧
    env.supervisor request = .ok response

theorem hasStaleSource_eq_false_iff {result : WhyResult} {sources : List SourceState}
    (h : result.freshness = freshnessViews sources) :
    hasStaleSource result = false ↔ ∀ source ∈ sources, source.freshness = .fresh := by
  unfold hasStaleSource
  rw [h, freshnessViews, List.any_map, List.any_eq_false]
  refine forall₂_congr fun source _ => ?_
  obtain ⟨sourceId, sourceKind, freshness, observedAt, cursor⟩ := source
  cases freshness with
  | fresh =>
    have hname : ¬ decide ("fresh" = "stale") = true := by decide
    exact iff_of_true hname rfl
  | stale =>
    have hname : decide ("stale" = "stale") = true := by decide
    exact iff_of_false (not_not_intro hname) nofun

/-- The response to a request decides its code. -/
theorem standing_of_response {request : KernelRequest} {response : KernelResponse}
    {result : WhyResult} (h : Kernel.evaluate request = some response)
    (hresponse : result.response = response) (hfresh : hasStaleSource result = false) :
    Standing request (whyExit result) := by
  unfold whyExit
  rw [hfresh, hresponse]
  cases response with
  | error version requestId error =>
    refine .undecided fun hdecided => ?_
    obtain ⟨_, _, _, _, hproof⟩ := evaluate_isProof_iff.mp hdecided
    exact nomatch Option.some.inj (h.symm.trans hproof)
  | proof version requestId snapshotId proof =>
    have hdecided : Decided request := evaluate_isProof_iff.mpr ⟨_, _, _, _, h⟩
    have hverdict := Kernel.verdictSpec_of_evaluate h
    show Standing request (match proof.verdict with
      | .established => exitOk
      | .partialProof | .notEstablished => exitMissingRationale
      | .conflicted => exitConflict)
    rcases hverdict.verdict_eq with ⟨hconflict, hv⟩ | ⟨hagreed, ⟨hpath, hv⟩ | ⟨hnone, ⟨-, hv⟩ | ⟨-, hv⟩⟩⟩
    · rw [hv]
      exact .conflicted hdecided hconflict
    · rw [hv]
      exact .explained hdecided hagreed hpath
    · rw [hv]
      exact .unexplained hdecided hagreed hnone
    · rw [hv]
      exact .unexplained hdecided hagreed hnone

/-- An answer of `why`, in a sound repository. -/
theorem Host.Sound.answered (h : host.Sound params.hash) (hkernel : KernelSupervisor env.supervisor)
    {result : WhyResult} (hresult : runWhy params env host target = .ok result) :
    ∃ request, Asks params env host target request ∧
      (hasStaleSource result = false ↔ PublishedFresh host) ∧
      (hasStaleSource result = false → Standing request (whyExit result)) := by
  unfold runWhy at hresult
  split at hresult
  · next hfile =>
    obtain ⟨parsed, evidence, slice, hanswered⟩ := why_eq_ok.mp hresult
    refine ⟨_, ⟨hanswered.input, hfile, parsed, evidence, slice, result.response, hanswered.accepted,
      hanswered.resolved, hanswered.loaded, rfl, hanswered.evaluated⟩, ?_, fun hfresh => ?_⟩
    · obtain ⟨id, hid, -, -, -, -, hslice⟩ := loadCurrentProofSlice_eq_ok.mp hanswered.loaded
      have hfull : currentSlice host.db = some (snapshotSlice host.db id) := by
        unfold currentSlice
        rw [hid]
        rfl
      rw [hasStaleSource_eq_false_iff hanswered.sources, PublishedFresh,
        ← h.presents.fresh_iff hfull, hslice]
      rfl
    · exact standing_of_response (hkernel.answers _ _ hanswered.evaluated) rfl hfresh
  · obtain ⟨_, -, hresult⟩ := bind_eq_ok.mp hresult
    obtain ⟨_, -, hresult⟩ := bind_eq_ok.mp hresult
    obtain ⟨_, -, hresult⟩ := bind_eq_ok.mp hresult
    exact nomatch hresult

theorem Asks.unique {request request' : KernelRequest} (h : Asks params env host target request)
    (h' : Asks params env host target request') : request = request' := by
  obtain ⟨-, -, parsed, evidence, slice, _, hparsed, hresolved, hloaded, rfl, -⟩ := h
  obtain ⟨-, -, parsed', evidence', slice', _, hparsed', hresolved', hloaded', rfl, -⟩ := h'
  obtain rfl := Except.ok.inj (hparsed.symm.trans hparsed')
  obtain rfl := Except.ok.inj (hresolved.symm.trans hresolved')
  obtain rfl := Option.some.inj (Except.ok.inj (hloaded.symm.trans hloaded'))
  rfl

/-- Without candidates to rank, `why` answers whenever the kernel does. -/
theorem Asks.exists_ok {request : KernelRequest} (h : Asks params env host target request)
    (hkernel : KernelSupervisor env.supervisor) {code : UInt8} (hstanding : Standing request code)
    (hcode : code = exitOk ∨ code = exitConflict) :
    ∃ result, runWhy params env host target = .ok result := by
  obtain ⟨hinput, hfile, parsed, evidence, slice, response, hparsed, hresolved, hloaded, rfl,
    hresponse⟩ := h
  have heval := hkernel.answers _ _ hresponse
  have hneeds : proofNeedsCandidates response = false := by
    by_contra hneeds
    rw [Bool.not_eq_false] at hneeds
    let result : WhyResult := ⟨target, response, [], []⟩
    have hunique := (@standing_of_response _ _ result heval rfl rfl).unique hstanding
    cases response with
    | error version requestId error => exact Bool.false_ne_true hneeds
    | proof version requestId snapshotId proof =>
      have hmissing : whyExit result = exitMissingRationale := by
        show (match proof.verdict with
          | .established => exitOk
          | .partialProof | .notEstablished => exitMissingRationale
          | .conflicted => exitConflict) = _
        rcases Bool.or_eq_true _ _ ▸ hneeds with hv | hv
        · rw [of_decide_eq_true hv]
        · rw [of_decide_eq_true hv]
      rw [hmissing] at hunique
      rcases hcode with rfl | rfl
      · exact absurd hunique (by decide)
      · exact absurd hunique (by decide)
  refine ⟨⟨target, response, candidatesForResponse params.observedSecond response target evidence [],
    freshnessViews slice.sources⟩, ?_⟩
  unfold runWhy
  rw [if_pos hfile]
  refine why_eq_ok.mpr ⟨parsed, evidence, slice, hinput, hparsed, hresolved, hloaded, hresponse, ?_, rfl,
    rfl⟩
  unfold candidateStage
  rw [if_neg (by rw [hneeds]; exact Bool.false_ne_true)]

/-- When an answer is fresh, and explained or conflicted. -/
theorem Host.Sound.decided_iff (h : host.Sound params.hash) (hkernel : KernelSupervisor env.supervisor)
    {code : UInt8} (hcode : code = exitOk ∨ code = exitConflict) :
    exitCode ((runWhy params env host target).map whyExit) = code ↔ PublishedFresh host ∧
      ∃ request, Asks params env host target request ∧ Standing request code := by
  constructor
  · intro hexit
    cases hwhy : runWhy params env host target with
    | error error =>
      rw [hwhy] at hexit
      obtain ⟨hok, hconflict, -⟩ := errorExit_ne error
      rcases hcode with rfl | rfl
      · exact absurd hexit hok
      · exact absurd hexit hconflict
    | ok result =>
      rw [hwhy] at hexit
      have hexit : whyExit result = code := hexit
      obtain ⟨request, hasks, hfresh, hstanding⟩ := h.answered hkernel hwhy
      have hnone : hasStaleSource result = false := by
        by_contra hstale
        rw [Bool.not_eq_false] at hstale
        unfold whyExit at hexit
        rw [if_pos hstale] at hexit
        rcases hcode with rfl | rfl
        · exact absurd hexit (by decide)
        · exact absurd hexit (by decide)
      exact ⟨hfresh.mp hnone, request, hasks, hexit ▸ hstanding hnone⟩
  · rintro ⟨hfresh, request, hasks, hstanding⟩
    obtain ⟨result, hresult⟩ := hasks.exists_ok hkernel hstanding hcode
    obtain ⟨request', hasks', hfresh', hstanding'⟩ := h.answered hkernel hresult
    -- the answer is to the same request, which has one standing
    obtain rfl := hasks.unique hasks'
    rw [hresult]
    exact (hstanding' (hfresh'.mpr hfresh)).unique hstanding

/-- When an answer is stale. -/
theorem Host.Sound.stale_iff (h : host.Sound params.hash) (hkernel : KernelSupervisor env.supervisor) :
    exitCode ((runWhy params env host target).map whyExit) = exitStale ↔ ¬ PublishedFresh host ∧
      ∃ result, runWhy params env host target = .ok result := by
  constructor
  · intro hexit
    cases hwhy : runWhy params env host target with
    | error error =>
      rw [hwhy] at hexit
      exact absurd hexit (errorExit_ne error).2.2
    | ok result =>
      refine ⟨fun hfresh => ?_, result, rfl⟩
      rw [hwhy] at hexit
      have hexit : whyExit result = exitStale := hexit
      obtain ⟨request, -, hiff, hstanding⟩ := h.answered hkernel hwhy
      have hstanding := hstanding (hiff.mpr hfresh)
      rw [hexit] at hstanding
      exact nomatch hstanding
  · rintro ⟨hstale, result, hresult⟩
    obtain ⟨request, -, hiff, -⟩ := h.answered hkernel hresult
    rw [hresult]
    have hany : hasStaleSource result = true := by
      rw [← Bool.not_eq_false, hiff]
      exact hstale
    show whyExit result = exitStale
    unfold whyExit
    rw [if_pos hany]

/-- The exit code of an invocation of `why`. -/
theorem invoke_why (hdiscover : env.discover = .ok ()) :
    (invoke params env host (.why target)).1 =
      exitCode ((runWhy params env host target).map whyExit) := by
  unfold invoke
  rw [hdiscover]
  rfl

end Why

/-- A repository in which a commit names a decision. -/
def sampleEnvironment : Environment where
  discover := .ok ()
  inputs := .ok ⟨⟨[decidingCommit, secondCommit], true⟩, standingDecision, [], "now"⟩
  client := .ok ()
  originUrl := .ok none
  synchronize _ _ := .failed
  resolver := decidedResolver
  supervisor := kernelSupervisor
  statuses := .ok []
  serve := .ok ()

def sampleParameters : Parameters := ⟨id, fun _ => none, fun _ => none, decisionParsers⟩

/-! ### What `show` finds -/

section Show

variable {params : Parameters} {env : Environment} {host : Host} {recordId : String}

/-- One invocation leaves the origin of every stored record. -/
theorem recordOrigin_invoke {command : Commands} {origin : Origin}
    (h : recordOrigin host.db recordId = some origin) :
    recordOrigin (invoke params env host command).2.db recordId = some origin := by
  unfold invoke
  cases env.discover with
  | error error => exact h
  | ok _ =>
    cases command with
    | sync localOnly =>
      show recordOrigin (runSync params env host localOnly).2.db recordId = some origin
      unfold runSync
      cases syncCall env host localOnly with
      | error error => exact h
      | ok call =>
        dsimp only
        cases hrun : call.run params.hash params.timestamp params.parsers host.db with
        | error error => exact h
        | ok result => exact recordOrigin_of_run hrun h
    | why target => exact h
    | showRecord recordId => exact h
    | gaps => exact h
    | serve => exact h

/-- **What `show` finds.**  In every session it is the record of the evidence that was published last;
    and the origin with which a record is shown stays the stored one, whatever is run later and
    whether or not the record is still shown then. -/
theorem session_show (params : Parameters) (invocations : List (Environment × Commands))
    (recordId : String) (node : EvidenceNode) :
    (showRecord (session params invocations).database recordId = .ok (some node) ↔
      validateInput recordId "record identifier" maxRecordIdBytes = .ok () ∧
        ∃ p, (session params invocations).published = some p ∧
          p.evidence.records[recordId]? = some node) ∧
    (showRecord (session params invocations).database recordId = .ok (some node) →
      ∀ later, recordOrigin (session params (invocations ++ later)).db recordId =
        some node.origin) := by
  have hsound := @session_sound params invocations
  have hlater : ∀ later, session params (invocations ++ later) = later.foldl
      (fun host invocation => (invoke params invocation.1 host invocation.2).2)
      (session params invocations) := fun later => List.foldl_append
  simp only [hlater]
  generalize session params invocations = host at hsound
  unfold Host.database
  cases hfile : host.isFile with
  | false =>
    obtain ⟨-, hnone⟩ := hsound.unopened hfile
    have hnever : showRecord none recordId ≠ .ok (some node) := by
      intro h
      obtain ⟨_, -, h⟩ := bind_eq_ok.mp h
      exact nomatch h
    refine ⟨iff_of_false hnever ?_, fun h => absurd h hnever⟩
    rintro ⟨-, p, hp, -⟩
    exact nomatch hnone.symm.trans hp
  | true =>
    show (showRecord (some host.db) recordId = _ ↔ _) ∧ (showRecord (some host.db) recordId = _ → _)
    rw [showRecord_eq_ok, hsound.presents.currentRecord_iff]
    refine ⟨Iff.rfl, fun ⟨_, hnode⟩ later => ?_⟩
    have horigin : recordOrigin host.db recordId = some node.origin :=
      recordOrigin_of_currentRecord (hsound.presents.currentRecord_iff.mpr hnode)
    have hrun : ∀ host : Host, recordOrigin host.db recordId = some node.origin →
        recordOrigin (later.foldl
          (fun host invocation => (invoke params invocation.1 host invocation.2).2) host).db recordId =
          some node.origin := by
      induction later with
      | nil => exact fun _ h => h
      | cons invocation later ih => exact fun host h => ih _ (recordOrigin_invoke h)
    exact hrun host horigin

end Show

end Rationale.Cli
