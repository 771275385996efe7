import Rationale.Protocol
import Rationale.Library.KeyedMap

namespace Rationale.Store

open Std Rationale.Library

/-!
# The evidence database

`migrations/0001_initial.sql` and the types of `crates/rationale-store/src/lib.rs`.

* `records`, `edges`, `conflicts` are the immutable tables, by primary key.  A row's
  `content_json` is the canonical JSON of one value, and stands here as that value; the `source_id`
  and `target_id` columns of `edges` repeat it.
* `snapshots` groups the rows of `snapshots`, `snapshot_records`, `snapshot_edges`,
  `snapshot_conflicts`, `snapshot_sources` and `quarantined_inputs` by snapshot identifier, the
  first column of each primary key.
* `current` is the single row of `current_snapshot`.

Time columns are written and never read back, so they are left out.
-/

/-- `BTreeSet` of conflicts in key order. -/
abbrev ConflictSet := ExtTreeSet Conflict compareConflicts

/-- Whether one source was fresh when a snapshot was assembled. -/
inductive Freshness where
  | fresh
  | stale
  deriving DecidableEq, Repr

/-- Per-source state captured inside a snapshot. -/
structure SourceState where
  sourceId : String
  sourceKind : SourceKind
  freshness : Freshness
  observedAt : String
  cursor : Option String
  deriving DecidableEq, Repr

/-- Sanitized diagnostic for an input excluded from a candidate snapshot. -/
structure QuarantineDiagnostic where
  sourceLocator : String
  code : String
  message : String
  deriving DecidableEq, Repr

/-- Explicit limits for a stable graph read. -/
structure SliceLimits where
  maxNodes : Nat
  maxEdges : Nat
  maxConflicts : Nat
  deriving DecidableEq, Repr

/-- One transactionally stable evidence graph. -/
structure GraphSlice where
  snapshotId : String
  nodes : List EvidenceNode
  edges : List EvidenceEdge
  conflicts : List Conflict
  sources : List SourceState
  deriving DecidableEq, Repr

/-- Failure while building, publishing, or reading an evidence snapshot. -/
inductive StoreError where
  /-- SQLite rejected a statement, with its constraint message. -/
  | database (detail : String)
  /-- A content-derived identifier was reused for different bytes. -/
  | contentMismatch (kind id : String)
  /-- An edge or conflict refers outside its candidate snapshot. -/
  | unresolvedReference (detail : String)
  /-- A requested stable slice is larger than its explicit bound. -/
  | sliceLimitExceeded (kind : String) (actual limit : Nat)
  deriving DecidableEq, Repr

/-- `CHECK (state IN ('candidate', 'published'))`. -/
inductive SnapshotState where
  | candidate
  | published
  deriving DecidableEq, Repr

/-- The rows of the snapshot tables under one snapshot identifier. -/
structure Snapshot where
  state : SnapshotState
  recordIds : StringSet
  edgeIds : StringSet
  conflicts : ConflictSet
  sources : StringMap SourceState
  diagnostics : List QuarantineDiagnostic

/-- A snapshot as `begin_candidate` inserts it. -/
def Snapshot.candidate : Snapshot := ⟨.candidate, ∅, ∅, ∅, ∅, []⟩

structure Database where
  records : StringMap EvidenceNode
  edges : StringMap EvidenceEdge
  conflicts : ConflictSet
  snapshots : StringMap Snapshot
  sourceCursors : StringMap String
  current : Option String

/-- A freshly migrated database. -/
def Database.empty : Database := ⟨∅, ∅, ∅, ∅, ∅, none⟩

/-- The rows stored under a snapshot identifier; none when the snapshot does not exist. -/
def Database.snapshot (db : Database) (id : String) : Snapshot :=
  db.snapshots[id]?.getD Snapshot.candidate

/-- Rewrite the rows stored under a snapshot identifier. -/
def Database.setSnapshot (db : Database) (id : String) (snapshot : Snapshot) : Database :=
  { db with snapshots := db.snapshots.insert id snapshot }

@[simp] theorem Database.snapshot_setSnapshot (db : Database) (id : String) (snapshot : Snapshot) :
    (db.setSnapshot id snapshot).snapshot id = snapshot := by
  simp [Database.snapshot, Database.setSnapshot]

theorem Database.getElem?_setSnapshot (db : Database) (id other : String) (snapshot : Snapshot) :
    (db.setSnapshot id snapshot).snapshots[other]? =
      if id = other then some snapshot else db.snapshots[other]? := by
  simp [Database.setSnapshot, ExtTreeMap.getElem?_insert]

@[simp] theorem Database.records_setSnapshot (db : Database) (id : String) (snapshot : Snapshot) :
    (db.setSnapshot id snapshot).records = db.records := rfl
@[simp] theorem Database.edges_setSnapshot (db : Database) (id : String) (snapshot : Snapshot) :
    (db.setSnapshot id snapshot).edges = db.edges := rfl
@[simp] theorem Database.conflicts_setSnapshot (db : Database) (id : String)
    (snapshot : Snapshot) : (db.setSnapshot id snapshot).conflicts = db.conflicts := rfl
@[simp] theorem Database.current_setSnapshot (db : Database) (id : String) (snapshot : Snapshot) :
    (db.setSnapshot id snapshot).current = db.current := rfl

end Rationale.Store
