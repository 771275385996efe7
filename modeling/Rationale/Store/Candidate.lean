import Rationale.Store.Database
import Rationale.Library.SortUniq

namespace Rationale.Store

open Std Rationale.Library

/-!
# Building and publishing a candidate snapshot

`CandidateSnapshot` of `crates/rationale-store/src/lib.rs`: a write transaction over the database
with the snapshot it fills.

* `beginCandidate` — open the transaction and insert the snapshot's own row;
* `insertRecord`, `insertEdge`, `insertConflict` — the immutable tables and their memberships;
* `setSourceState`, `quarantine` — the remaining rows of the snapshot;
* `publish` — check the references, advance the cursors, move the current pointer and commit.

Every operation returns the transaction's next state.  A statement that fails changes nothing, and
a candidate that is abandoned or dropped leaves the database it started from.
-/

/-- An open write transaction and the snapshot it builds. -/
structure CandidateSnapshot where
  /-- The tables as the transaction sees them, except for the candidate's own snapshot rows. -/
  transaction : Database
  snapshotId : String
  /-- The snapshot rows under `snapshotId`; no other connection reads them before the commit. -/
  rows : Snapshot

/-- Begin an isolated candidate snapshot; the identifier is a primary key. -/
def beginCandidate (db : Database) (id : String) : Except StoreError CandidateSnapshot :=
  if id ∈ db.snapshots then .error (.database "UNIQUE constraint failed: snapshots.id")
  else .ok ⟨db, id, Snapshot.candidate⟩

namespace CandidateSnapshot

/-- `INSERT OR IGNORE INTO snapshot_records`. -/
def addRecord (candidate : CandidateSnapshot) (id : String) : CandidateSnapshot :=
  { candidate with
    rows := { candidate.rows with recordIds := candidate.rows.recordIds.insert id } }

/-- `INSERT OR IGNORE INTO snapshot_edges`. -/
def addEdge (candidate : CandidateSnapshot) (id : String) : CandidateSnapshot :=
  { candidate with
    rows := { candidate.rows with edgeIds := candidate.rows.edgeIds.insert id } }

/-- `INSERT OR IGNORE INTO snapshot_conflicts`. -/
def addConflict (candidate : CandidateSnapshot) (conflict : Conflict) : CandidateSnapshot :=
  { candidate with
    rows := { candidate.rows with conflicts := candidate.rows.conflicts.insert conflict } }

/-- Insert an immutable record idempotently and add it to this snapshot. -/
def insertRecord (candidate : CandidateSnapshot) (node : EvidenceNode) :
    Except StoreError CandidateSnapshot :=
  -- `INSERT OR IGNORE`: a stored row stays, and must then have the same content
  let records := candidate.transaction.records.insertIfNew node.id node
  if records[node.id]? = some node then
    .ok ({ candidate with transaction := { candidate.transaction with records } }.addRecord node.id)
  else .error (.contentMismatch "records" node.id)

/-- Insert an immutable edge idempotently and add it to this snapshot. -/
def insertEdge (candidate : CandidateSnapshot) (edge : EvidenceEdge) :
    Except StoreError CandidateSnapshot :=
  -- the foreign keys of a new row need both end points among the stored records
  if edge.id ∉ candidate.transaction.edges ∧ (edge.sourceId ∉ candidate.transaction.records ∨
      edge.targetId ∉ candidate.transaction.records) then
    .error (.database "FOREIGN KEY constraint failed")
  else
    let edges := candidate.transaction.edges.insertIfNew edge.id edge
    if edges[edge.id]? = some edge then
      .ok ({ candidate with transaction := { candidate.transaction with edges } }.addEdge edge.id)
    else .error (.contentMismatch "edges" edge.id)

/-- Insert immutable explicit conflict metadata into this snapshot.  A stored conflict's content is
    its key, so it never differs. -/
def insertConflict (candidate : CandidateSnapshot) (conflict : Conflict) :
    Except StoreError CandidateSnapshot :=
  if conflict ∉ candidate.transaction.conflicts ∧
      (conflict.leftNodeId ∉ candidate.transaction.records ∨
        conflict.rightNodeId ∉ candidate.transaction.records) then
    .error (.database "FOREIGN KEY constraint failed")
  else
    let conflicts := candidate.transaction.conflicts.insert conflict
    .ok ({ candidate with transaction := { candidate.transaction with conflicts } }.addConflict
      conflict)

/-- Record source freshness and an optional cursor; a repeated source is updated. -/
def setSourceState (candidate : CandidateSnapshot) (source : SourceState) : CandidateSnapshot :=
  { candidate with rows :=
    { candidate.rows with sources := candidate.rows.sources.insert source.sourceId source } }

/-- Add a sanitized quarantine diagnostic to this candidate. -/
def quarantine (candidate : CandidateSnapshot) (diagnostic : QuarantineDiagnostic) :
    CandidateSnapshot :=
  { candidate with rows :=
    { candidate.rows with diagnostics := candidate.rows.diagnostics ++ [diagnostic] } }

end CandidateSnapshot

/-- The member edges of a snapshot, in identifier order. -/
def memberEdges (db : Database) (snapshot : Snapshot) : List EvidenceEdge :=
  snapshot.edgeIds.toList.filterMap (db.edges[·]?)

/-- Fail at the first member edge, then at the first member conflict, that leaves the snapshot. -/
def validateCandidate (db : Database) (snapshot : Snapshot) : Except StoreError Unit :=
  match (memberEdges db snapshot).find? fun edge =>
      edge.sourceId ∉ snapshot.recordIds ∨ edge.targetId ∉ snapshot.recordIds with
  | some edge => .error (.unresolvedReference s!"edge {edge.id} leaves the snapshot")
  | none =>
    let missing := snapshot.conflicts.toList.filter fun conflict =>
      conflict.leftNodeId ∉ snapshot.recordIds ∨ conflict.rightNodeId ∉ snapshot.recordIds
    match (sortBy compare (missing.map (·.ruleId))).head? with
    | some rule => .error (.unresolvedReference s!"conflict {rule} leaves the snapshot")
    | none => .ok ()

/-- The cursors of a snapshot's sources, over the cursors already stored. -/
def advanceCursors (cursors : StringMap String) (sources : List SourceState) : StringMap String :=
  sources.foldl (fun cursors source =>
    match source.cursor with
    | some cursor => cursors.insert source.sourceId cursor
    | none => cursors) cursors

/-- Atomically publish this complete snapshot and its resumable cursors. -/
def CandidateSnapshot.publish (candidate : CandidateSnapshot) : Except StoreError Database := do
  validateCandidate candidate.transaction candidate.rows
  let published := candidate.transaction.setSnapshot candidate.snapshotId
    { candidate.rows with state := .published }
  return { published with
    sourceCursors := advanceCursors published.sourceCursors (values candidate.rows.sources)
    current := some candidate.snapshotId }

end Rationale.Store
