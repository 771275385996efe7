import Rationale.Engine.Evidence
import Rationale.Engine.Candidate
import Rationale.Git.Target
import Rationale.Store.Slice

namespace Rationale.Engine

open Std Rationale.Library Rationale.Git Rationale.Store

/-!
# Answering a `why` query

`Engine::why` of `crates/rationale-engine/src/lib.rs` and what it calls.

* `proofSeedIds`, `attachTarget` — from a resolved target to the kernel's request;
* `proofRequest` — the request for a slice;
* `candidatesForResponse` — suggestions after an incomplete proof;
* `why` — the whole query.

Git and the proof worker are other programs: `Resolver` and `supervisor` hold what they answer.
-/

/-- Failure in local evidence orchestration. -/
inductive EngineError where
  /-- Local Git target or repository resolution failed. -/
  | git (detail : String)
  /-- GitHub remote identification or client setup failed. -/
  | github (detail : String)
  | store (error : StoreError)
  | io (detail : String)
  /-- The authoritative proof worker was unavailable. -/
  | proofUnavailable (detail : String)
  /-- No evidence has been synchronized yet. -/
  | noSnapshot
  | invalidQuery (detail : String)
  | scanLimit (limit : Nat)
  deriving DecidableEq, Repr

/-- Source freshness rendered with a proof result. -/
structure FreshnessView where
  sourceId : String
  sourceKind : SourceKind
  freshness : String
  observedAt : String
  deriving DecidableEq, Repr

/-- Complete structured answer for a `why` query. -/
structure WhyResult where
  target : String
  response : KernelResponse
  candidates : List CandidateView
  freshness : List FreshnessView
  deriving DecidableEq, Repr

/-- What Git answers for a parsed target. -/
structure Resolver where
  /-- `resolve_for_proof`: without the path history that only candidates use. -/
  resolveForProof : TargetSpec → Except String ResolvedTarget
  resolve : TargetSpec → Except String ResolvedTarget

def maxCandidateHistorySummaries : Nat := 32

/-- The limits of the proof slice that `why` loads. -/
def proofSliceLimits : SliceLimits := ⟨4000, 16384, 4096⟩

/-- The limit on the records that candidates are ranked from. -/
def candidateRecordLimit : Nat := 4000

def validateInput (value name : String) (maxBytes : Nat) : Except EngineError Unit :=
  if value.isEmpty then .error (.invalidQuery (name ++ " must not be empty"))
  else if value.utf8ByteSize > maxBytes then
    .error (.invalidQuery (name ++ " exceeds " ++ toString maxBytes ++ " bytes"))
  else .ok ()

def proofSeedIds : ResolvedTarget → List String
  | .commit commit => [commit.id]
  | .lines _ _ _ _ introducedBy _ => sortUniq compare (introducedBy.map (·.commitId))

def proofNeedsCandidates : KernelResponse → Bool
  | .proof _ _ _ proof => proof.verdict = .partialProof || proof.verdict = .notEstablished
  | .error _ _ _ => false

def freshnessViews (sources : List SourceState) : List FreshnessView :=
  sources.map fun source => ⟨source.sourceId, source.sourceKind,
    match source.freshness with
    | .fresh => "fresh"
    | .stale => "stale", source.observedAt⟩

/-! ### Attaching the target -/

/-- The node and edge maps of a request under construction. -/
structure Graph where
  nodes : StringMap EvidenceNode
  edges : StringMap EvidenceEdge

/-- The maps of a loaded slice. -/
def Graph.ofSlice (slice : GraphSlice) : Graph :=
  ⟨indexBy EvidenceNode.id slice.nodes, indexBy EvidenceEdge.id slice.edges⟩

section Attach

variable (hash : String → String) (timestamp : Int → Option String)

def attachCommitReferences (commit : CommitEvidence) (graph : Graph) : Graph :=
  let attach (edges : StringMap EvidenceEdge) (edge : EvidenceEdge) :=
    if graph.nodes.contains edge.targetId then edges.insert edge.id edge else edges
  { graph with edges := (commitReferenceEdges hash commit).foldl attach graph.edges }

/-- The record of a code target. -/
def codeTargetId (path : String) (startLine endLine : Nat) (revision : String) : String :=
  "code:" ++ hash (path ++ ":" ++ toString startLine ++ "-" ++ toString endLine ++ "@" ++ revision)

def codeTargetOrigin (path : String) (startLine endLine : Nat) (revision : String) : Origin :=
  ⟨.git, path ++ ":" ++ toString startLine ++ "-" ++ toString endLine, some revision, none⟩

/-- The record of a commit that only blame names. -/
def attributedNode (commitId : String) : EvidenceNode :=
  ⟨commitId, .change, .current, none, none,
    ⟨.git, "commit:" ++ commitId, some commitId, none⟩⟩

/-- One turn of the attribution loop of `attach_target`. -/
def attachAttribution (codeId : String) (origin : Origin) (graph : Graph)
    (attribution : LineAttribution) : Graph :=
  let introduced := evidenceEdge hash .introducedBy codeId attribution.commitId origin
  { nodes := graph.nodes.insertIfNew attribution.commitId (attributedNode attribution.commitId)
    edges := graph.edges.insert introduced.id introduced }

/-- Add the target to a graph, with the edges that lead from it. -/
def attachTarget (target : ResolvedTarget) (graph : Graph) : String × Graph :=
  match target with
  | .commit commit =>
      let graph := { graph with
        nodes := graph.nodes.insertIfNew commit.id (commitNode timestamp commit) }
      (commit.id, attachCommitReferences hash commit graph)
  | .lines path startLine endLine revision introducedBy _ =>
      let id := codeTargetId hash path startLine endLine revision
      let origin := codeTargetOrigin path startLine endLine revision
      let node : EvidenceNode := ⟨id, .codeTarget, .current, none, none, origin⟩
      let graph := { graph with nodes := graph.nodes.insert id node }
      (id, introducedBy.foldl (attachAttribution hash id origin) graph)

def queryId (snapshotId target : String) : String :=
  "query:" ++ hash ("rationale-query-v1\x00" ++ snapshotId ++ "\x00" ++ target)

/-- The kernel request for a slice and a resolved target. -/
def proofRequest (target : String) (evidence : ResolvedTarget) (slice : GraphSlice) :
    KernelRequest :=
  let (targetId, graph) := attachTarget hash timestamp evidence (Graph.ofSlice slice)
  { protocolVersion := 1
    requestId := queryId hash slice.snapshotId target
    snapshotId := slice.snapshotId
    goal := ⟨targetId, [.decision, .workItem]⟩
    nodes := values graph.nodes
    edges := values graph.edges
    conflicts := slice.conflicts }

end Attach

/-! ### Candidates -/

section Candidates

variable (observedSecond : String → Option Int)

/-- What the target adds to a candidate query: identifiers to leave out, text and a path. -/
def targetQuery : ResolvedTarget → List String × List String × Option String
  | .commit commit => ([commit.id], [commit.summary], none)
  | .lines path _ _ _ introducedBy changedBy =>
      (introducedBy.map (·.commitId),
        (changedBy.take maxCandidateHistorySummaries).map (·.commit.summary), some path)

def candidatesForResponse (response : KernelResponse) (target : String) (evidence : ResolvedTarget)
    (records : List EvidenceNode) : List CandidateView :=
  match response with
  | .error _ _ _ => []
  | .proof _ _ _ proof =>
      if proof.verdict = .established ∨ proof.verdict = .conflicted then []
      else
        let (excluded, texts, path) := targetQuery evidence
        let excluded := ExtTreeSet.ofList (proof.gaps.filterMap (·.fromNodeId) ++ excluded) compare
        let text := texts.foldl (fun text summary => text ++ "\n" ++ summary) target
        rankCandidates observedSecond ⟨target, text, path⟩ records excluded

end Candidates

/-! ### The query -/

section Why

variable (hash : String → String) (timestamp : Int → Option String)
  (observedSecond : String → Option Int) (resolver : Resolver)
  (supervisor : KernelRequest → Except EngineError KernelResponse)

/-- The candidate stage: after a proof that needs candidates, the target is resolved again and the
    snapshot's records are loaded. -/
def candidateStage (db : Database) (snapshotId target : String) (parsed : TargetSpec)
    (evidence : ResolvedTarget) (response : KernelResponse) :
    Except EngineError (List CandidateView) :=
  if proofNeedsCandidates response then do
    let candidateEvidence ← (resolver.resolve parsed).mapError .git
    let records ← (loadSnapshotRecords db snapshotId candidateRecordLimit).mapError .store
    return candidatesForResponse observedSecond response target candidateEvidence records
  else .ok (candidatesForResponse observedSecond response target evidence [])

/-- Resolve a target and evaluate it against the current snapshot. -/
def why (db : Database) (target : String) : Except EngineError WhyResult := do
  validateInput target "target" maxTargetBytes
  let parsed ← (TargetSpec.fromStr target).mapError .git
  let evidence ← (resolver.resolveForProof parsed).mapError .git
  let slice? ← (loadCurrentProofSlice db (proofSeedIds evidence) proofSliceLimits).mapError .store
  match slice? with
  | none => .error .noSnapshot
  | some slice => do
    let response ← supervisor (proofRequest hash timestamp target evidence slice)
    let candidates ← candidateStage observedSecond resolver db slice.snapshotId target parsed
      evidence response
    return ⟨target, response, candidates, freshnessViews slice.sources⟩

end Why

end Rationale.Engine
