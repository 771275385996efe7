import Rationale.Docs.Containment
import Rationale.Engine.Publish

namespace Rationale.Engine

open Std Rationale.Library Rationale.Docs Rationale.Git Rationale.Store

/-!
# Prepared evidence is publishable

Evidence that was prepared from local sources and merged with any forge contribution, against the
checks of the store.

* `ReferentiallyClosed`, `Extends` — what holds of merged evidence, and of it against the local one;
* `NoContent` — a database without content under the evidence's identifiers;
* `prepared_evidence_publishable` — merged evidence is closed, and only a taken snapshot identifier
  stands in the way of its publication.
-/

/-- Evidence without references out of it, under its own identifiers. -/
structure ReferentiallyClosed (evidence : PreparedEvidence) : Prop where
  record_ids : ∀ (id : String) (node : EvidenceNode), evidence.records[id]? = some node → node.id = id
  edge_ids : ∀ (id : String) (edge : EvidenceEdge), evidence.edges[id]? = some edge → edge.id = id
  edge_ends : ∀ (id : String) (edge : EvidenceEdge), evidence.edges[id]? = some edge →
    edge.sourceId ∈ evidence.records ∧ edge.targetId ∈ evidence.records
  conflict_ends : ∀ conflict ∈ evidence.conflicts,
    conflict.leftNodeId ∈ evidence.records ∧ conflict.rightNodeId ∈ evidence.records
  conflicts_nodup : evidence.conflicts.Nodup

/-- Every record and edge there was is still there, unchanged. -/
structure Extends (before after : PreparedEvidence) : Prop where
  records : ∀ (id : String) (node : EvidenceNode),
    before.records[id]? = some node → after.records[id]? = some node
  edges : ∀ (id : String) (edge : EvidenceEdge),
    before.edges[id]? = some edge → after.edges[id]? = some edge

/-- The immutable tables hold nothing under the evidence's identifiers. -/
structure NoContent (db : Database) (evidence : PreparedEvidence) : Prop where
  records : ∀ id ∈ evidence.records, id ∉ db.records
  edges : ∀ id ∈ evidence.edges, id ∉ db.edges

section Closure

variable {hash : String → String} {timestamp : Int → Option String} {parsers : Parsers}
  {config : IngestConfig} {evidence : PreparedEvidence}

/-- Well-formed evidence without repeated conflicts is closed. -/
theorem referentiallyClosed_of_nodup (h : evidence.conflicts.Nodup) :
    ReferentiallyClosed evidence where
  record_ids := evidence.records_keyed
  edge_ids := evidence.edges_keyed
  edge_ends id edge hedge := evidence.edges_closed edge (mem_values.mpr ⟨id, hedge⟩)
  conflict_ends := evidence.conflicts_closed
  conflicts_nodup := h

/-- Ingestion reports every conflict once. -/
theorem nodup_ingest_conflicts (inputs : List DocumentInput) :
    (ingest hash parsers config inputs).conflicts.Nodup := by
  show (Text.dedupBy (· == ·) (sortBy compareConflicts _)).Nodup
  rw [dedupBy_sortBy]
  have hsorted := @sortUniq_pairwise _ compareConflicts _
  exact @pairwise_key_ne _ compareConflicts _ _ id _ (hsorted _)

/-- Only conflicts of documents are conflicts of the evidence. -/
theorem nodup_prepareEvidence_conflicts {commits : List CommitEvidence} {ingested : IngestResult}
    {diagnostics : List IngestDiagnostic} (h : ingested.conflicts.Nodup) :
    (prepareEvidence hash timestamp commits ingested diagnostics).conflicts.Nodup :=
  h.filter _

theorem extends_mergeGithubEvidence (records : List EvidenceNode) (edges : List EvidenceEdge) :
    Extends evidence (mergeGithubEvidence evidence records edges) where
  records id node h := by
    show (insertNewAll EvidenceNode.id evidence.records records)[id]? = some node
    rw [getElem?_insertNewAll, h]
    rfl
  edges id edge h := by
    show (insertNewAll EvidenceEdge.id evidence.edges _)[id]? = some edge
    rw [getElem?_insertNewAll, h]
    rfl

end Closure

section Publication

variable {hash : String → String} {evidence : PreparedEvidence} {db : Database}

/-- Content under no identifier of the evidence agrees with it. -/
theorem NoContent.consistent (h : NoContent db evidence) : Consistent db evidence where
  records node hnode other hother := by
    have hmem : node.id ∈ evidence.records := evidence.records_keyed.mem_iff.mpr ⟨node, hnode, rfl⟩
    exact absurd (ExtTreeMap.mem_iff_isSome_getElem?.mpr (hother ▸ rfl)) (h.records _ hmem)
  edges edge hedge other hother := by
    have hmem : edge.id ∈ evidence.edges := evidence.edges_keyed.mem_iff.mpr ⟨edge, hedge, rfl⟩
    exact absurd (ExtTreeMap.mem_iff_isSome_getElem?.mpr (hother ▸ rfl)) (h.edges _ hmem)

/-- **Publishing consistent evidence** fails on a taken identifier only. -/
theorem publishEvidence_error {sources : List SourceState} {complete : Bool}
    {rate : Option GitHubRateLimitView} {failure : EngineError} (h : Consistent db evidence)
    (hfailure : publishEvidence hash db evidence sources complete rate = .error failure) :
    snapshotIdOf hash evidence sources ∈ db.snapshots ∧
      failure = .store (.database "UNIQUE constraint failed: snapshots.id") := by
  unfold publishEvidence at hfailure
  dsimp only at hfailure
  split at hfailure
  · exact nomatch hfailure
  show evidenceSnapshotId hash evidence.sorted (sortSources sources) ∈ db.snapshots ∧ _
  generalize hid : evidenceSnapshotId hash evidence.sorted (sortSources sources) = id at hfailure ⊢
  by_cases htaken : id ∈ db.snapshots
  · refine ⟨htaken, ?_⟩
    have hbegin : publishCandidate db id evidence.sorted (sortSources sources) =
        .error (.database "UNIQUE constraint failed: snapshots.id") := by
      unfold publishCandidate beginCandidate
      rw [if_pos htaken]
      rfl
    rw [hbegin] at hfailure
    exact (Except.error.inj hfailure).symm
  · -- under a new identifier the publication succeeds
    have hconsistent : Consistent db evidence.sorted := ⟨h.records, h.edges⟩
    have hok : publishCandidate db id evidence.sorted (sortSources sources) =
        .ok (withEvidence db id evidence.sorted (sortSources sources)) :=
      publishCandidate_eq_ok.mpr ⟨htaken, hconsistent, rfl⟩
    rw [hok] at hfailure
    exact nomatch hfailure

end Publication

section Main

variable (hash : String → String) (timestamp : Int → Option String) (parsers : Parsers)
  (config : IngestConfig)

/-- **Prepared evidence is always publishable.**  Whatever the commits, the documents and the forge
    contribution, merged evidence is referentially closed and extends the local evidence; into a
    database without content under its identifiers, its publication can only fail because its
    snapshot identifier is taken. -/
theorem prepared_evidence_publishable (commits : List CommitEvidence)
    (inputs : List DocumentInput) (diagnostics : List IngestDiagnostic)
    (records : List EvidenceNode) (edges : List EvidenceEdge) :
    let prepared := prepareEvidence hash timestamp commits (ingest hash parsers config inputs)
      diagnostics
    let merged := mergeGithubEvidence prepared records edges
    ReferentiallyClosed prepared ∧ ReferentiallyClosed merged ∧ Extends prepared merged ∧
      ∀ db, NoContent db merged → ∀ sources complete rate failure,
        publishEvidence hash db merged sources complete rate = .error failure →
          snapshotIdOf hash merged sources ∈ db.snapshots ∧
            failure = .store (.database "UNIQUE constraint failed: snapshots.id") := by
  intro prepared merged
  have hnodup : prepared.conflicts.Nodup :=
    nodup_prepareEvidence_conflicts (nodup_ingest_conflicts inputs)
  refine ⟨referentiallyClosed_of_nodup hnodup, referentiallyClosed_of_nodup hnodup,
    extends_mergeGithubEvidence records edges, ?_⟩
  intro db hnew sources complete rate failure hfailure
  exact publishEvidence_error hnew.consistent hfailure

end Main

end Rationale.Engine
