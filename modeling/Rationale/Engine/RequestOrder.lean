import Rationale.Engine.ProofInput
import Rationale.Wire.Model

namespace Rationale.Engine

open Std Rationale.Library Rationale.Git Rationale.Store

/-!
# The array order of requests

Protocol version 1 (`protocol/v1/README.md`) fixes the order of the arrays in a message: nodes by
identifier, edges by kind, source, target and identifier, conflicts by their three parts.

* `CanonicalOrder` — a request in that order;
* `proofRequest_edges` — the edges of a request, by identifier alone: those of the slice, with those
  of the target in the place of the ones that have their identifiers;
* `proofRequest_canonicalOrder_iff` — the request of `why` is in the order of the protocol exactly
  when the identifiers of its edges happen to follow it.
-/

/-- Kind, then source, target and identifier: the order of edges in protocol version 1. -/
def compareEdgeKeys : EvidenceEdge → EvidenceEdge → Ordering :=
  compareLex (compareOn fun edge => Wire.stringOfEdgeKind edge.kind)
    (compareLex (compareOn EvidenceEdge.sourceId)
      (compareLex (compareOn EvidenceEdge.targetId) (compareOn EvidenceEdge.id)))

/-- A request whose arrays are in the order of the protocol. -/
structure CanonicalOrder (request : KernelRequest) : Prop where
  nodes : request.nodes.Pairwise (fun node other => compare node.id other.id = .lt)
  edges : request.edges.Pairwise (fun edge other => compareEdgeKeys edge other = .lt)
  conflicts : request.conflicts.Pairwise
    (fun conflict other => compareConflicts conflict other = .lt)

/-- Slices of one snapshot with the same rows, in whatever order. -/
structure SameRows (slice slice' : GraphSlice) : Prop where
  snapshotId : slice.snapshotId = slice'.snapshotId
  nodes : ∀ node, node ∈ slice.nodes ↔ node ∈ slice'.nodes
  edges : ∀ edge, edge ∈ slice.edges ↔ edge ∈ slice'.edges
  conflicts : ∀ conflict, conflict ∈ slice.conflicts ↔ conflict ∈ slice'.conflicts

/-- The edge is the last one of the list with its identifier. -/
def LastOfId (edges : List EvidenceEdge) (edge : EvidenceEdge) : Prop :=
  ∃ before after, edges = before ++ edge :: after ∧ ∀ later ∈ after, later.id ≠ edge.id

theorem LastOfId.mem {edges : List EvidenceEdge} {edge : EvidenceEdge}
    (h : LastOfId edges edge) : edge ∈ edges := by
  obtain ⟨before, after, rfl, -⟩ := h
  exact List.mem_append_right _ List.mem_cons_self

/-- Among the last edges of each identifier, those with smaller identifiers have smaller keys. -/
def IdsFollowKeys (edges : List EvidenceEdge) : Prop :=
  ∀ edge other, LastOfId edges edge → LastOfId edges other → compare edge.id other.id = .lt →
    compareEdgeKeys edge other = .lt

/-! ### Loaded slices -/

section Loaded

variable {db : Database} {seedIds : List String} {limits : SliceLimits} {slice : GraphSlice}

/-- The rows of a loaded slice are in the order of their keys. -/
theorem pairwise_of_load (hdb : Store.Reachable db)
    (hload : loadCurrentProofSlice db seedIds limits = .ok (some slice)) :
    slice.nodes.Pairwise (fun node other => compare node.id other.id = .lt) ∧
      slice.edges.Pairwise (fun edge other => compare edge.id other.id = .lt) ∧
      slice.conflicts.Pairwise (fun conflict other => compareConflicts conflict other = .lt) := by
  obtain ⟨id, -, -, -, -, -, rfl⟩ := loadCurrentProofSlice_eq_ok.mp hload
  exact ⟨(memberRecords_pairwise hdb.valid.records_keyed _).filter _,
    (memberEdges_pairwise hdb.valid.edges_keyed _).filter _,
    ExtTreeSet.ordered_toList.filter _⟩

end Loaded

/-! ### The edges of a request -/

section Request

variable {hash : String → String} {timestamp : Int → Option String} {slice : GraphSlice}

/-- The edges that a target adds: its references to present records, or its attributions. -/
def targetEdges (hash : String → String) (evidence : ResolvedTarget) (slice : GraphSlice) :
    List EvidenceEdge :=
  match evidence with
  | .commit commit => (commitReferenceEdges hash commit).filter fun edge =>
      edge.targetId = commit.id ∨ edge.targetId ∈ slice.nodes.map (·.id)
  | .lines path startLine endLine revision introducedBy _ => introducedBy.map fun attribution =>
      evidenceEdge hash .introducedBy (codeTargetId hash path startLine endLine revision)
        attribution.commitId (codeTargetOrigin path startLine endLine revision)

/-- **The edges of a request**, by identifier. -/
theorem proofRequest_edges (target : String) (evidence : ResolvedTarget) :
    (proofRequest hash timestamp target evidence slice).edges = values
      (indexBy EvidenceEdge.id (slice.edges ++ targetEdges hash evidence slice) :
        StringMap EvidenceEdge) := by
  show values (attachTarget hash timestamp evidence (Graph.ofSlice slice)).2.edges = _
  rw [indexBy, insertAll_append]
  cases evidence with
  | commit commit =>
    -- the commit is present by then, so references to it are kept
    show values (attachCommitReferences hash commit _).edges = _
    rw [edges_attachCommitReferences]
    congr 2
    refine List.filter_congr (fun edge _ => ?_)
    rw [Bool.eq_iff_iff, ExtTreeMap.contains_iff_mem, ExtTreeMap.mem_insertIfNew, decide_eq_true_eq]
    show _ ∨ _ ∈ (indexBy EvidenceNode.id slice.nodes : StringMap EvidenceNode) ↔ _
    rw [mem_indexBy, Std.compare_eq_iff_eq, List.mem_map, eq_comm]
  | lines path startLine endLine revision introducedBy changedBy =>
    unfold attachTarget
    dsimp only
    rw [foldl_attachAttribution]
    rfl

/-- Edges come out in the order of their identifiers, whatever else they are. -/
theorem proofRequest_edges_pairwise (target : String) (evidence : ResolvedTarget) :
    (proofRequest hash timestamp target evidence slice).edges.Pairwise
      (fun edge other => compare edge.id other.id = .lt) := by
  rw [proofRequest_edges]
  exact keyedBy_indexBy.values_pairwise

/-- An edge is sent when it is the last one with its identifier: the target's edges come after those
    of the slice. -/
theorem mem_proofRequest_edges {target : String} {evidence : ResolvedTarget} {edge : EvidenceEdge} :
    edge ∈ (proofRequest hash timestamp target evidence slice).edges ↔
      LastOfId (slice.edges ++ targetEdges hash evidence slice) edge := by
  rw [proofRequest_edges, mem_values_indexBy_iff_last]
  rfl

/-! ### Nodes and conflicts -/

variable {db : Database} {limits : SliceLimits} {evidence : ResolvedTarget}

theorem proofRequest_nodes_pairwise (hdb : Store.Reachable db) {seedIds : List String}
    (hload : loadCurrentProofSlice db seedIds limits = .ok (some slice)) (target : String)
    (evidence : ResolvedTarget) :
    (proofRequest hash timestamp target evidence slice).nodes.Pairwise
      (fun node other => compare node.id other.id = .lt) := by
  obtain ⟨id, hid, -⟩ := loadCurrentProofSlice_eq_ok.mp hload
  have hclosed := closedGraph_ofSlice (closureSlice_of_load hdb.valid hid hload).edges_closed
  exact (closedGraph_attachTarget hclosed evidence).1.nodes_keyed.values_pairwise

/-- **Equal evidence makes equal requests**: the rows of two loaded slices with the same rows are in
    the same order. -/
theorem proofRequest_eq_of_sameRows {db' : Database} {limits' : SliceLimits}
    {slice' : GraphSlice} {seedIds seedIds' : List String} (hdb : Store.Reachable db)
    (hdb' : Store.Reachable db')
    (hload : loadCurrentProofSlice db seedIds limits = .ok (some slice))
    (hload' : loadCurrentProofSlice db' seedIds' limits' = .ok (some slice'))
    (hsame : SameRows slice slice') (target : String) (evidence : ResolvedTarget) :
    proofRequest hash timestamp target evidence slice =
      proofRequest hash timestamp target evidence slice' := by
  obtain ⟨hnodes, hedges, hconflicts⟩ := pairwise_of_load hdb hload
  obtain ⟨hnodes', hedges', hconflicts'⟩ := pairwise_of_load hdb' hload'
  have hn : slice.nodes = slice'.nodes := eq_of_pairwise_key_lt hnodes hnodes' hsame.nodes
  have he : slice.edges = slice'.edges := eq_of_pairwise_key_lt hedges hedges' hsame.edges
  have hc : slice.conflicts = slice'.conflicts :=
    eq_of_pairwise_lt_of_mem_iff hconflicts hconflicts' hsame.conflicts
  unfold proofRequest Graph.ofSlice
  rw [hn, he, hc, hsame.snapshotId]

/-! ### The order of the protocol -/

/-- Edges are in the order of the protocol exactly when their identifiers follow it. -/
theorem proofRequest_edges_keys_iff (target : String) (evidence : ResolvedTarget) :
    (proofRequest hash timestamp target evidence slice).edges.Pairwise
        (fun edge other => compareEdgeKeys edge other = .lt) ↔
      IdsFollowKeys (slice.edges ++ targetEdges hash evidence slice) := by
  rw [pairwise_iff_of_pairwise_key_lt (proofRequest_edges_pairwise target evidence)]
  simp only [mem_proofRequest_edges, IdsFollowKeys]
  exact ⟨fun h edge other hedge hother => h edge hedge other hother,
    fun h edge hedge other hother => h edge other hedge hother⟩

/-- **Requests are in the order of the protocol exactly when their edge identifiers follow it.**
    Nodes and conflicts always are, and equal evidence makes equal requests.  Edges are in the order
    of their identifiers: of any two that are sent, the one with the smaller identifier has to be
    the one with the smaller kind, source and target. -/
theorem proofRequest_canonicalOrder_iff (hash : String → String) (timestamp : Int → Option String)
    (target : String) (hdb : Store.Reachable db)
    (hload : loadCurrentProofSlice db (proofSeedIds evidence) limits = .ok (some slice)) :
    let request := proofRequest hash timestamp target evidence slice
    (CanonicalOrder request ↔ IdsFollowKeys (slice.edges ++ targetEdges hash evidence slice)) ∧
    request.nodes.Pairwise (fun node other => compare node.id other.id = .lt) ∧
    request.conflicts.Pairwise (fun conflict other => compareConflicts conflict other = .lt) ∧
    ∀ db' limits' slice', Store.Reachable db' →
      loadCurrentProofSlice db' (proofSeedIds evidence) limits' = .ok (some slice') →
      SameRows slice slice' → proofRequest hash timestamp target evidence slice' = request := by
  intro request
  -- only the edges are sorted by another key than their own
  have hnodes := @proofRequest_nodes_pairwise hash timestamp _ _ _ hdb _ hload target evidence
  have hconflicts := (pairwise_of_load hdb hload).2.2
  have hedges := @proofRequest_edges_keys_iff hash timestamp slice target evidence
  refine ⟨⟨fun hcanonical => hedges.mp hcanonical.edges,
    fun hfollow => ⟨hnodes, hedges.mpr hfollow, hconflicts⟩⟩, hnodes, hconflicts,
    fun db' limits' slice' hdb' hload' hsame => ?_⟩
  exact (proofRequest_eq_of_sameRows hdb hdb' hload hload' hsame target evidence).symm

end Request

/-! ### Two attributed lines -/

def olderCommit : CommitEvidence :=
  ⟨"3f1c2a9d5be07c84aa1069e2d47b53f8c6e0b917", "Retry once", 0, []⟩

def newerCommit : CommitEvidence :=
  ⟨"a84e6d3017f29bc5e1d0836c42fa97b85d31e6f0", "Retry twice", 1, []⟩

/-- The BLAKE3 digests of the texts that the identifiers of the target and of its edges are made
    from. -/
def digestOf (text : String) : String :=
  let code := "139662ea211c7ac1731ee339cc5b621b8a8cb62bf640d778e9365a49e516020c"
  if text = "src/retry.rs:10-11@a84e6d3017f29bc5e1d0836c42fa97b85d31e6f0" then code
  else if text = edgeMaterial .introducedBy ("code:" ++ code) olderCommit.id "src/retry.rs:10-11" then
    "d71accb38c6061d4ac7067956b1aeb319afa05b6694734fe475590ab8340fb6f"
  else if text = edgeMaterial .introducedBy ("code:" ++ code) newerCommit.id "src/retry.rs:10-11" then
    "cc2143fc875a46ff970d563a48f2e8ce792df76d44487955761634976e31ce92"
  else text

/-- Two lines, each from another commit. -/
def retryLines (introducedBy : List LineAttribution) : ResolvedTarget :=
  .lines "src/retry.rs" 10 11 newerCommit.id introducedBy []

/-- The commits, published. -/
def retryPublication : Publication :=
  localPublication digestOf (fun _ => none) decisionParsers
    ⟨⟨[newerCommit, olderCommit], true⟩, [], [], "now"⟩

/-- The edge from the lines to the commit. -/
def introducedEdge (commit : CommitEvidence) : EvidenceEdge :=
  evidenceEdge digestOf .introducedBy (codeTargetId digestOf "src/retry.rs" 10 11 newerCommit.id)
    commit.id (codeTargetOrigin "src/retry.rs" 10 11 newerCommit.id)

set_option maxRecDepth 8000

theorem compare_introducedEdge :
    compare (introducedEdge newerCommit).id (introducedEdge olderCommit).id = .lt ∧
      compareEdgeKeys (introducedEdge newerCommit) (introducedEdge olderCommit) = .gt := by
  decide

/-- **The edge of the newer commit goes first**: it has the smaller identifier, and the greater
    target. -/
theorem not_canonicalOrder_retryLines :
    ∃ db slice, Store.Reachable db ∧
      loadCurrentProofSlice db
          (proofSeedIds (retryLines [⟨10, olderCommit.id⟩, ⟨11, newerCommit.id⟩]))
          proofSliceLimits = .ok (some slice) ∧
      ¬ CanonicalOrder (proofRequest digestOf (fun _ => none) "src/retry.rs:10-11"
        (retryLines [⟨10, olderCommit.id⟩, ⟨11, newerCommit.id⟩]) slice) := by
  obtain ⟨db, hdb, hload, -⟩ := @loads_published digestOf retryPublication
    (proofSeedIds (retryLines [⟨10, olderCommit.id⟩, ⟨11, newerCommit.id⟩])) proofSliceLimits
    (by decide) (by decide)
  refine ⟨db, _, hdb, hload, fun hcanonical => ?_⟩
  have hfollow := (proofRequest_edges_keys_iff _ _).mp hcanonical.edges
  -- the slice has no edges: those of the lines are the only ones
  have hedges : (reachableSlice (retryPublication.slice digestOf)
      (proofSeedIds (retryLines [⟨10, olderCommit.id⟩, ⟨11, newerCommit.id⟩]))).edges = [] := by
    decide
  rw [hedges, List.nil_append] at hfollow
  have hlast : LastOfId [introducedEdge olderCommit, introducedEdge newerCommit]
      (introducedEdge newerCommit) :=
    ⟨[introducedEdge olderCommit], [], rfl, by simp⟩
  have hfirst : LastOfId [introducedEdge olderCommit, introducedEdge newerCommit]
      (introducedEdge olderCommit) := by
    refine ⟨[], [introducedEdge newerCommit], rfl, ?_⟩
    decide
  obtain ⟨hids, hkeys⟩ := compare_introducedEdge
  have hlt := hfollow _ _ hlast hfirst hids
  rw [hkeys] at hlt
  contradiction

/-- Where both lines are from one commit, one edge is sent. -/
theorem canonicalOrder_retryLines :
    ∃ db slice, Store.Reachable db ∧
      loadCurrentProofSlice db
          (proofSeedIds (retryLines [⟨10, newerCommit.id⟩, ⟨11, newerCommit.id⟩]))
          proofSliceLimits = .ok (some slice) ∧
      CanonicalOrder (proofRequest digestOf (fun _ => none) "src/retry.rs:10-11"
        (retryLines [⟨10, newerCommit.id⟩, ⟨11, newerCommit.id⟩]) slice) := by
  obtain ⟨db, hdb, hload, -⟩ := @loads_published digestOf retryPublication
    (proofSeedIds (retryLines [⟨10, newerCommit.id⟩, ⟨11, newerCommit.id⟩])) proofSliceLimits
    (by decide) (by decide)
  refine ⟨db, _, hdb, hload, ?_⟩
  obtain ⟨hiff, -⟩ := proofRequest_canonicalOrder_iff digestOf (fun _ => none)
    "src/retry.rs:10-11" hdb hload
  have hedges : (reachableSlice (retryPublication.slice digestOf)
      (proofSeedIds (retryLines [⟨10, newerCommit.id⟩, ⟨11, newerCommit.id⟩]))).edges = [] := by
    decide
  rw [hiff, hedges, List.nil_append]
  show IdsFollowKeys (List.replicate 2 (introducedEdge newerCommit))
  intro edge other hedge hother hlt
  have heq : edge = other := by
    rw [List.eq_of_mem_replicate hedge.mem, List.eq_of_mem_replicate hother.mem]
  rw [heq] at hlt
  have hself : compare other.id other.id = .eq := Std.compare_eq_iff_eq.mpr rfl
  rw [hself] at hlt
  contradiction

end Rationale.Engine
