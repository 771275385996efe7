import Rationale.Docs.Ingest
import Rationale.Git.Evidence

namespace Rationale.Engine

open Std Rationale.Library Rationale.Docs Rationale.Git

/-!
# Prepared evidence

How `crates/rationale-engine/src/lib.rs` assembles one snapshot's evidence.

* `PreparedEvidence` — records and edges under their identifiers, with every reference resolved:
  a value of the type is always closed;
* `commitNode`, `commitReferenceEdges` — the records and relationships of the commit history;
* `prepareEvidence` — local commits and documents, with a diagnostic for each reference dropped;
* `mergeGithubEvidence` — a forge contribution on top, local records winning.

`hash` stands for `blake3::hash(..).to_hex()` and `timestamp` for the text of
`jiff::Timestamp::from_second`, where it exists.
-/

/-- The evidence of one snapshot. -/
structure PreparedEvidence where
  records : StringMap EvidenceNode
  edges : StringMap EvidenceEdge
  conflicts : List Conflict
  diagnostics : List IngestDiagnostic
  records_keyed : KeyedBy EvidenceNode.id records
  edges_keyed : KeyedBy EvidenceEdge.id edges
  edges_closed : ∀ edge ∈ values edges, edge.sourceId ∈ records ∧ edge.targetId ∈ records
  conflicts_closed : ∀ conflict ∈ conflicts,
    conflict.leftNodeId ∈ records ∧ conflict.rightNodeId ∈ records

section Commits

variable (hash : String → String) (timestamp : Int → Option String)

def commitNode (commit : CommitEvidence) : EvidenceNode where
  id := commit.id
  kind := .change
  status := .current
  subjectId := none
  outcomeId := none
  origin := ⟨.git, "commit:" ++ commit.id, some commit.id, timestamp commit.committedAt⟩

def evidenceEdge (kind : EdgeKind) (source target : String) (origin : Origin) : EvidenceEdge :=
  hashedEdge hash id kind source target .current origin

/-- The edge kind of a reference; a URL is not a relationship. -/
def referenceEdgeKind : ReferenceKind → Option EdgeKind
  | .issue | .story => some .resolvesIssue
  | .decision => some .documents
  | .forgeUrl => none

def commitReferenceEdges (commit : CommitEvidence) : List EvidenceEdge :=
  let origin : Origin := ⟨.git, "commit:" ++ commit.id ++ "#message", some commit.id, none⟩
  commit.references.filterMap fun reference =>
    (referenceEdgeKind reference.kind).map fun kind =>
      evidenceEdge hash kind commit.id reference.value origin

end Commits

/-- Both end points are among the records. -/
def edgeResolved (records : StringMap EvidenceNode) (edge : EvidenceEdge) : Bool :=
  records.contains edge.sourceId && records.contains edge.targetId

/-- Both sides are among the records. -/
def conflictResolved (records : StringMap EvidenceNode) (conflict : Conflict) : Bool :=
  records.contains conflict.leftNodeId && records.contains conflict.rightNodeId

theorem edgeResolved_iff {records : StringMap EvidenceNode} {edge : EvidenceEdge} :
    edgeResolved records edge = true ↔ edge.sourceId ∈ records ∧ edge.targetId ∈ records := by
  rw [edgeResolved, Bool.and_eq_true, ExtTreeMap.contains_iff_mem, ExtTreeMap.contains_iff_mem]

theorem conflictResolved_iff {records : StringMap EvidenceNode} {conflict : Conflict} :
    conflictResolved records conflict = true ↔
      conflict.leftNodeId ∈ records ∧ conflict.rightNodeId ∈ records := by
  rw [conflictResolved, Bool.and_eq_true, ExtTreeMap.contains_iff_mem, ExtTreeMap.contains_iff_mem]

def unresolvedReference (edge : EvidenceEdge) : IngestDiagnostic :=
  ⟨edge.origin.locator, "unresolved_reference",
    "explicit relationship target is absent from local sources"⟩

def unresolvedConflict (conflict : Conflict) : IngestDiagnostic :=
  ⟨conflict.ruleId, "unresolved_conflict",
    "explicit conflict target is absent from local sources"⟩

section Prepare

variable (hash : String → String) (timestamp : Int → Option String)

/-- The local records: documents, then commits over them. -/
def localRecords (commits : List CommitEvidence) (ingested : IngestResult) :
    StringMap EvidenceNode :=
  insertAll EvidenceNode.id (indexBy EvidenceNode.id ingested.records)
    (commits.map (commitNode timestamp))

/-- Every explicit local relationship, of documents and then of commits. -/
def proposedEdges (commits : List CommitEvidence) (ingested : IngestResult) : List EvidenceEdge :=
  ingested.edges ++ commits.flatMap (commitReferenceEdges hash)

/-- The local relationships that are dropped. -/
def unresolvedEdges (commits : List CommitEvidence) (ingested : IngestResult) :
    List EvidenceEdge :=
  (proposedEdges hash commits ingested).filter
    (fun edge => !edgeResolved (localRecords timestamp commits ingested) edge)

/-- The document conflicts that are dropped. -/
def unresolvedConflicts (commits : List CommitEvidence) (ingested : IngestResult) : List Conflict :=
  ingested.conflicts.filter
    (fun conflict => !conflictResolved (localRecords timestamp commits ingested) conflict)

def prepareEvidence (commits : List CommitEvidence) (ingested : IngestResult)
    (diagnostics : List IngestDiagnostic) : PreparedEvidence where
  records := localRecords timestamp commits ingested
  edges := indexBy EvidenceEdge.id
    ((proposedEdges hash commits ingested).filter
      (edgeResolved (localRecords timestamp commits ingested)))
  conflicts := ingested.conflicts.filter
    (conflictResolved (localRecords timestamp commits ingested))
  diagnostics := diagnostics ++ ingested.diagnostics
    ++ (unresolvedEdges hash timestamp commits ingested).map unresolvedReference
    ++ (unresolvedConflicts timestamp commits ingested).map unresolvedConflict
  records_keyed := keyedBy_indexBy.insertAll
  edges_keyed := keyedBy_indexBy
  edges_closed := by
    intro edge hedge
    rw [keyedBy_indexBy.mem_values_iff] at hedge
    rcases mem_or_of_getElem?_insertAll hedge with ⟨hmem, -⟩ | h
    · exact edgeResolved_iff.mp (List.mem_filter.mp hmem).2
    · simp at h
  conflicts_closed := by
    intro conflict hconflict
    exact conflictResolved_iff.mp (List.mem_filter.mp hconflict).2

end Prepare

/-- Records of the contribution join under unused identifiers; its edges join when both ends are
    then present. -/
def mergeGithubEvidence (evidence : PreparedEvidence) (records : List EvidenceNode)
    (edges : List EvidenceEdge) : PreparedEvidence where
  records := insertNewAll EvidenceNode.id evidence.records records
  edges := insertNewAll EvidenceEdge.id evidence.edges
    (edges.filter (edgeResolved (insertNewAll EvidenceNode.id evidence.records records)))
  conflicts := evidence.conflicts
  diagnostics := evidence.diagnostics
  records_keyed := evidence.records_keyed.insertNewAll
  edges_keyed := evidence.edges_keyed.insertNewAll
  edges_closed := by
    intro edge hedge
    rw [evidence.edges_keyed.insertNewAll.mem_values_iff] at hedge
    rcases mem_or_of_getElem?_insertNewAll hedge with h | ⟨-, hmem, -⟩
    · have hclosed := evidence.edges_closed edge (mem_values.mpr ⟨_, h⟩)
      exact ⟨mem_insertNewAll.mpr (Or.inl hclosed.1), mem_insertNewAll.mpr (Or.inl hclosed.2)⟩
    · exact edgeResolved_iff.mp (List.mem_filter.mp hmem).2
  conflicts_closed := by
    intro conflict hconflict
    have hclosed := evidence.conflicts_closed conflict hconflict
    exact ⟨mem_insertNewAll.mpr (Or.inl hclosed.1), mem_insertNewAll.mpr (Or.inl hclosed.2)⟩

end Rationale.Engine
