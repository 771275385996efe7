import Rationale.Engine.SnapshotId
import Rationale.Engine.Why
import Rationale.Store.Invariant

namespace Rationale.Engine

open Std Relation Rationale.Library Rationale.Docs Rationale.Store

/-!
# Publishing prepared evidence

`Engine::publish_evidence` of `crates/rationale-engine/src/lib.rs`.

* `publishEvidence` — reuse the current snapshot or publish a new one;
* `withEvidence` — the database after a publication;
* `publishCandidate_eq_ok` — when a publication succeeds: the identifier is new and the immutable
  tables agree with the evidence;
* `snapshotSlice_withEvidence` — what is read back is the evidence.
-/

/-- Public, transport-neutral view of GitHub's primary request budget. -/
structure GitHubRateLimitView where
  limit : Option Nat
  remaining : Option Nat
  resetAt : Option Int
  deriving DecidableEq, Repr

/-- Result of publishing or reusing one local evidence snapshot. -/
structure SyncReport where
  snapshotId : String
  unchanged : Bool
  records : Nat
  edges : Nat
  conflicts : Nat
  quarantined : Nat
  historyComplete : Bool
  staleSources : List String
  githubRateLimit : Option GitHubRateLimitView
  deriving DecidableEq, Repr

/-- The diagnostics and conflicts in canonical order. -/
def PreparedEvidence.sorted (evidence : PreparedEvidence) : PreparedEvidence :=
  { evidence with
    diagnostics := sortBy compareDiagnostics evidence.diagnostics
    conflicts := sortBy compareConflicts evidence.conflicts
    conflicts_closed := fun conflict h => evidence.conflicts_closed conflict (mem_sortBy.mp h) }

def sortSources (sources : List SourceState) : List SourceState :=
  sortBy (compareOn SourceState.sourceId) sources

/-- The identifier under which evidence is published. -/
def snapshotIdOf (hash : String → String) (evidence : PreparedEvidence)
    (sources : List SourceState) : String :=
  evidenceSnapshotId hash evidence.sorted (sortSources sources)

def quarantineDiagnostic (diagnostic : IngestDiagnostic) : QuarantineDiagnostic :=
  ⟨diagnostic.sourceLocator, diagnostic.code, diagnostic.message⟩

/-- Fill a candidate with the evidence and publish it. -/
def publishCandidate (db : Database) (id : String) (evidence : PreparedEvidence)
    (sources : List SourceState) : Except StoreError Database := do
  let candidate ← beginCandidate db id
  let candidate ← (values evidence.records).foldlM CandidateSnapshot.insertRecord candidate
  let candidate ← (values evidence.edges).foldlM CandidateSnapshot.insertEdge candidate
  let candidate ← evidence.conflicts.foldlM CandidateSnapshot.insertConflict candidate
  let candidate := sources.foldl CandidateSnapshot.setSourceState candidate
  let candidate := (evidence.diagnostics.map quarantineDiagnostic).foldl
    CandidateSnapshot.quarantine candidate
  candidate.publish

section Publish

variable (hash : String → String)

/-- Publish prepared evidence, or reuse the current snapshot when it has the same identifier.  On
    an error the database stays as it was. -/
def publishEvidence (db : Database) (evidence : PreparedEvidence) (sources : List SourceState)
    (historyComplete : Bool) (githubRateLimit : Option GitHubRateLimitView) :
    Except EngineError (SyncReport × Database) :=
  let sources := sortSources sources
  let evidence := evidence.sorted
  let snapshotId := evidenceSnapshotId hash evidence sources
  let report (unchanged : Bool) : SyncReport :=
    { snapshotId
      unchanged
      records := evidence.records.size
      edges := evidence.edges.size
      conflicts := evidence.conflicts.length
      quarantined := evidence.diagnostics.length
      historyComplete
      staleSources := (sources.filter (·.freshness = .stale)).map (·.sourceId)
      githubRateLimit }
  if currentSnapshotId db = some snapshotId then .ok (report true, db)
  else ((publishCandidate db snapshotId evidence sources).mapError EngineError.store).map
    fun published => (report false, published)

end Publish

/-! ### The effect of a publication -/

/-- The snapshot rows of published evidence. -/
def evidenceRows (evidence : PreparedEvidence) (sources : List SourceState) : Snapshot where
  state := .published
  recordIds := (values evidence.records).foldl (fun ids node => ids.insert node.id) ∅
  edgeIds := (values evidence.edges).foldl (fun ids edge => ids.insert edge.id) ∅
  conflicts := evidence.conflicts.foldl (fun set conflict => set.insert conflict) ∅
  sources := indexBy SourceState.sourceId sources
  diagnostics := evidence.diagnostics.map quarantineDiagnostic

/-- The database after evidence is published under an identifier. -/
def withEvidence (db : Database) (id : String) (evidence : PreparedEvidence)
    (sources : List SourceState) : Database where
  records := insertNewAll EvidenceNode.id db.records (values evidence.records)
  edges := insertNewAll EvidenceEdge.id db.edges (values evidence.edges)
  conflicts := evidence.conflicts.foldl (fun set conflict => set.insert conflict) db.conflicts
  snapshots := db.snapshots.insert id (evidenceRows evidence sources)
  sourceCursors := advanceCursors db.sourceCursors (values (evidenceRows evidence sources).sources)
  current := some id

/-- The immutable tables hold no other content under the evidence's identifiers. -/
structure Consistent (db : Database) (evidence : PreparedEvidence) : Prop where
  records : ∀ node ∈ values evidence.records, Agrees EvidenceNode.id db.records node
  edges : ∀ edge ∈ values evidence.edges, Agrees EvidenceEdge.id db.edges edge

variable {db db' : Database} {id : String} {evidence : PreparedEvidence}
  {sources : List SourceState}

theorem PreparedEvidence.records_nodup (evidence : PreparedEvidence) :
    (values evidence.records).Pairwise (fun a b => a.id ≠ b.id) :=
  pairwise_key_ne evidence.records_keyed.values_pairwise

theorem PreparedEvidence.edges_nodup (evidence : PreparedEvidence) :
    (values evidence.edges).Pairwise (fun a b => a.id ≠ b.id) :=
  pairwise_key_ne evidence.edges_keyed.values_pairwise

/-- The candidate after all insertions of `publishCandidate`. -/
def filledCandidate (db : Database) (id : String) (evidence : PreparedEvidence)
    (sources : List SourceState) : CandidateSnapshot where
  transaction := { withEvidence db id evidence sources with
    snapshots := db.snapshots
    sourceCursors := db.sourceCursors
    current := db.current }
  snapshotId := id
  rows := { evidenceRows evidence sources with state := .candidate }

/-- The candidate after all insertions is filled with the evidence. -/
theorem foldl_publishCandidate :
    (evidence.diagnostics.map quarantineDiagnostic).foldl CandidateSnapshot.quarantine
      (sources.foldl CandidateSnapshot.setSourceState
        (evidence.conflicts.foldl CandidateSnapshot.withConflict
          ((values evidence.edges).foldl CandidateSnapshot.withEdge
            ((values evidence.records).foldl CandidateSnapshot.withRecord
              ⟨db, id, Snapshot.candidate⟩)))) = filledCandidate db id evidence sources := by
  rw [foldl_withRecord, foldl_withEdge, foldl_withConflict, foldl_setSourceState, foldl_quarantine]
  rfl

/-- The statements of a publication, run to the end. -/
theorem publishCandidate_eq_ok_iff_publish :
    publishCandidate db id evidence sources = .ok db' ↔
      id ∉ db.snapshots ∧ Consistent db evidence ∧
        (filledCandidate db id evidence sources).publish = .ok db' := by
  have hrecords := evidence.records_nodup
  have hedges := evidence.edges_nodup
  unfold publishCandidate beginCandidate
  by_cases hid : id ∈ db.snapshots
  · rw [if_pos hid]
    exact ⟨(nomatch ·), fun h => absurd hid h.1⟩
  rw [if_neg hid]
  show ((values evidence.records).foldlM CandidateSnapshot.insertRecord
    ⟨db, id, Snapshot.candidate⟩ >>= _) = _ ↔ _
  simp only [bind_eq_ok, insertRecords_eq_ok hrecords]
  -- once the records are in, every end point is stored
  have hstored : ∀ key ∈ evidence.records,
      key ∈ ((values evidence.records).foldl CandidateSnapshot.withRecord
        ⟨db, id, Snapshot.candidate⟩).transaction.records := by
    intro key hkey
    rw [foldl_withRecord]
    exact mem_insertNewAll.mpr (Or.inr (evidence.records_keyed.mem_iff.mp hkey))
  have hedgeEnds := fun edge hedge =>
    (evidence.edges_closed edge hedge).imp (hstored _) (hstored _)
  have hconflictEnds : ∀ conflict ∈ evidence.conflicts,
      conflict.leftNodeId ∈ ((values evidence.edges).foldl CandidateSnapshot.withEdge
        ((values evidence.records).foldl CandidateSnapshot.withRecord
          ⟨db, id, Snapshot.candidate⟩)).transaction.records ∧
      conflict.rightNodeId ∈ ((values evidence.edges).foldl CandidateSnapshot.withEdge
        ((values evidence.records).foldl CandidateSnapshot.withRecord
          ⟨db, id, Snapshot.candidate⟩)).transaction.records := by
    intro conflict hconflict
    rw [foldl_withEdge]
    exact (evidence.conflicts_closed conflict hconflict).imp (hstored _) (hstored _)
  -- storing records leaves the edge table alone
  have hedgeTable : ((values evidence.records).foldl CandidateSnapshot.withRecord
      ⟨db, id, Snapshot.candidate⟩).transaction.edges = db.edges := by
    rw [foldl_withRecord]
  have hagree : ∀ candidate', (values evidence.edges).foldlM CandidateSnapshot.insertEdge
      ((values evidence.records).foldl CandidateSnapshot.withRecord
        ⟨db, id, Snapshot.candidate⟩) = .ok candidate' ↔
      (∀ edge ∈ values evidence.edges, Agrees EvidenceEdge.id db.edges edge) ∧
        candidate' = (values evidence.edges).foldl CandidateSnapshot.withEdge
          ((values evidence.records).foldl CandidateSnapshot.withRecord
            ⟨db, id, Snapshot.candidate⟩) := by
    intro candidate'
    rw [insertEdges_eq_ok hedges hedgeEnds, hedgeTable]
  constructor
  · rintro ⟨_, ⟨hr, rfl⟩, candidate, he, _, hc, hpublish⟩
    obtain ⟨hagrees, rfl⟩ := (hagree _).mp he
    obtain rfl := (insertConflicts_eq_ok hconflictEnds).mp hc
    rw [foldl_publishCandidate] at hpublish
    exact ⟨hid, ⟨hr, hagrees⟩, hpublish⟩
  · rintro ⟨-, ⟨hr, he⟩, hpublish⟩
    refine ⟨_, ⟨hr, rfl⟩, _, (hagree _).mpr ⟨he, rfl⟩, _,
      (insertConflicts_eq_ok hconflictEnds).mpr rfl, ?_⟩
    rw [foldl_publishCandidate]
    exact hpublish

/-! ### The published rows -/

section Rows

theorem mem_recordIds_evidenceRows {k : String} :
    k ∈ (evidenceRows evidence sources).recordIds ↔ k ∈ evidence.records := by
  rw [evidence.records_keyed.mem_iff]
  show k ∈ (values evidence.records).foldl _ _ ↔ _
  rw [mem_foldl_insert]
  simp

theorem mem_edgeIds_evidenceRows {k : String} :
    k ∈ (evidenceRows evidence sources).edgeIds ↔ k ∈ evidence.edges := by
  rw [evidence.edges_keyed.mem_iff]
  show k ∈ (values evidence.edges).foldl _ _ ↔ _
  rw [mem_foldl_insert]
  simp

theorem mem_conflicts_evidenceRows {conflict : Conflict} :
    conflict ∈ (evidenceRows evidence sources).conflicts ↔ conflict ∈ evidence.conflicts := by
  have hmem := @mem_foldl_insert Conflict Conflict compareConflicts _ (fun conflict => conflict)
    evidence.conflicts _ ∅ conflict
  show conflict ∈ evidence.conflicts.foldl (fun set conflict => set.insert conflict) (∅ : ConflictSet)
    ↔ _
  rw [hmem]
  simp

/-- A table that agrees with the values of a map looks up the same under its keys. -/
theorem getElem?_insertNewAll_of_agrees {α : Type} {key : α → String} {stored m : StringMap α}
    (hm : KeyedBy key m) (hagrees : ∀ a ∈ values m, Agrees key stored a) {k : String} (hk : k ∈ m) :
    (insertNewAll key stored (values m))[k]? = m[k]? := by
  obtain ⟨a, ha, rfl⟩ := hm.mem_iff.mp hk
  rw [hm.getElem?_insertNewAll_values, hm.mem_values_iff.mp ha]
  cases hstored : stored[key a]? with
  | none => rfl
  | some other => rw [hagrees a ha other hstored]; rfl

/-- Looking up the keys of a map in order gives its values. -/
theorem filterMap_getElem?_eq_values {α : Type} {key : α → String}
    {stored m : StringMap α} (hm : KeyedBy key m) {ids : StringSet} (hids : ∀ k, k ∈ ids ↔ k ∈ m)
    (hstored : ∀ k ∈ m, stored[k]? = m[k]?) : ids.toList.filterMap (stored[·]?) = values m := by
  have hsame : ids.toList.filterMap (stored[·]?) = ids.toList.filterMap (m[·]?) :=
    List.filterMap_congr (fun k hk => hstored k ((hids k).mp (ExtTreeSet.mem_toList.mp hk)))
  have hmem : ∀ a, a ∈ ids.toList.filterMap (m[·]?) ↔ a ∈ values m := by
    intro a
    rw [List.mem_filterMap, hm.mem_values_iff]
    constructor
    · rintro ⟨k, -, hk⟩
      rwa [hm k a hk]
    · intro ha
      have hkey : key a ∈ m := hm.mem_iff.mpr ⟨a, hm.mem_values_iff.mpr ha, rfl⟩
      exact ⟨key a, ExtTreeSet.mem_toList.mpr ((hids _).mpr hkey), ha⟩
  rw [hsame]
  -- both lists increase in the key, and have the same elements
  exact eq_of_pairwise_key_lt (pairwise_filterMap_getElem? hm ids) hm.values_pairwise hmem

/-- The published snapshot reads back the records of the evidence. -/
theorem memberRecords_withEvidence (h : Consistent db evidence) :
    memberRecords (withEvidence db id evidence sources) (evidenceRows evidence sources) =
      values evidence.records :=
  filterMap_getElem?_eq_values evidence.records_keyed (fun _ => mem_recordIds_evidenceRows)
    (fun _ hk => getElem?_insertNewAll_of_agrees evidence.records_keyed h.records hk)

/-- The published snapshot reads back the edges of the evidence. -/
theorem memberEdges_withEvidence (h : Consistent db evidence) :
    memberEdges (withEvidence db id evidence sources) (evidenceRows evidence sources) =
      values evidence.edges :=
  filterMap_getElem?_eq_values evidence.edges_keyed (fun _ => mem_edgeIds_evidenceRows)
    (fun _ hk => getElem?_insertNewAll_of_agrees evidence.edges_keyed h.edges hk)

/-- Prepared evidence is closed, so its snapshot is. -/
theorem closed_filledCandidate (h : Consistent db evidence) :
    Closed (filledCandidate db id evidence sources).transaction
      (filledCandidate db id evidence sources).rows where
  edges := by
    intro edge hedge
    have hvalues : edge ∈ values evidence.edges := by
      rw [← @memberEdges_withEvidence db id evidence sources h]
      exact hedge
    show edge.sourceId ∈ (evidenceRows evidence sources).recordIds ∧
      edge.targetId ∈ (evidenceRows evidence sources).recordIds
    rw [mem_recordIds_evidenceRows, mem_recordIds_evidenceRows]
    exact evidence.edges_closed edge hvalues
  conflicts := by
    intro conflict hconflict
    have hmem : conflict ∈ evidence.conflicts :=
      (@mem_conflicts_evidenceRows evidence sources conflict).mp hconflict
    show conflict.leftNodeId ∈ (evidenceRows evidence sources).recordIds ∧
      conflict.rightNodeId ∈ (evidenceRows evidence sources).recordIds
    rw [mem_recordIds_evidenceRows, mem_recordIds_evidenceRows]
    exact evidence.conflicts_closed conflict hmem

end Rows

/-- **A publication** succeeds exactly when its identifier is new and the immutable tables agree
    with the evidence. -/
theorem publishCandidate_eq_ok :
    publishCandidate db id evidence sources = .ok db' ↔
      id ∉ db.snapshots ∧ Consistent db evidence ∧ db' = withEvidence db id evidence sources := by
  rw [publishCandidate_eq_ok_iff_publish]
  refine and_congr_right (fun _ => and_congr_right (fun hconsistent => ?_))
  rw [publish_eq_ok]
  exact and_iff_right (closed_filledCandidate hconsistent)

/-- A publication is a run of the store. -/
theorem reachable_publishCandidate (hdb : Reachable db)
    (h : publishCandidate db id evidence sources = .ok db') : Reachable db' := by
  unfold publishCandidate at h
  simp only [bind_eq_ok] at h
  obtain ⟨begun, hbegin, withRecords, hrecords, withEdges, hedges, withConflicts, hconflicts,
    hpublish⟩ := h
  refine Reachable.publish hdb hbegin ?_ hpublish
  have hrecordSteps : ReflTransGen CandidateStep begun withRecords := by
    refine reflTransGen_of_foldlM ?_ hrecords
    exact fun _ _ _ hok => CandidateStep.record hok
  have hedgeSteps : ReflTransGen CandidateStep withRecords withEdges := by
    refine reflTransGen_of_foldlM ?_ hedges
    exact fun _ _ _ hok => CandidateStep.edge hok
  have hconflictSteps : ReflTransGen CandidateStep withEdges withConflicts := by
    refine reflTransGen_of_foldlM ?_ hconflicts
    exact fun _ _ _ hok => CandidateStep.conflict hok
  refine ((hrecordSteps.trans hedgeSteps).trans hconflictSteps).trans ?_
  exact (reflTransGen_of_foldl CandidateStep.source sources withConflicts).trans
    (reflTransGen_of_foldl CandidateStep.diagnostic _ _)

/-! ### Reading published evidence -/

section Tables

theorem snapshot_withEvidence :
    (withEvidence db id evidence sources).snapshot id = evidenceRows evidence sources := by
  simp [Database.snapshot, withEvidence]

/-- What a snapshot of the evidence reads back as. -/
def evidenceSlice (id : String) (evidence : PreparedEvidence) (sources : List SourceState) :
    GraphSlice where
  snapshotId := id
  nodes := values evidence.records
  edges := values evidence.edges
  conflicts := sortUniq compareConflicts evidence.conflicts
  sources := values (indexBy SourceState.sourceId sources : StringMap SourceState)

/-- **What is read back is the evidence.** -/
theorem snapshotSlice_withEvidence (h : Consistent db evidence) :
    snapshotSlice (withEvidence db id evidence sources) id = evidenceSlice id evidence sources := by
  have hconflicts : (evidenceRows evidence sources).conflicts.toList =
      sortUniq compareConflicts evidence.conflicts := by
    refine eq_of_pairwise_lt_of_mem_iff ExtTreeSet.ordered_toList (sortUniq_pairwise _) ?_
    intro conflict
    rw [ExtTreeSet.mem_toList, mem_conflicts_evidenceRows, mem_sortUniq]
  dsimp only [snapshotSlice, loadSources]
  rw [snapshot_withEvidence, memberRecords_withEvidence h, memberEdges_withEvidence h, hconflicts]
  rfl

theorem currentSlice_withEvidence (h : Consistent db evidence) :
    currentSlice (withEvidence db id evidence sources) = some (evidenceSlice id evidence sources) :=
  congrArg some (snapshotSlice_withEvidence h)

end Tables

end Rationale.Engine
