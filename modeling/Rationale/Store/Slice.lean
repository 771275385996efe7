import Rationale.Store.Candidate
import Rationale.Library.Saturate
import Rationale.Library.Fallible

namespace Rationale.Store

open Std Relation Rationale.Library

/-!
# Reading evidence back

The read side of `EvidenceStore` in `crates/rationale-store/src/lib.rs`.  A read never changes the
database, so it is a function of it.

* `loadCurrentSlice` — the complete current graph, within explicit limits;
* `snapshotSlice`, `currentSlice` — that graph without the limits;
* `loadCurrentProofSlice` — what the recursive query `REACHABLE_CTE` reaches from some seeds;
* `loadSnapshotRecords` — the records of one snapshot, for candidate ranking;
* `SliceStep`, `mem_reachable` — the recursive query computes plain reachability over the
  snapshot's edges and, in both directions, its conflicts.
-/

/-- `SELECT snapshot_id FROM current_snapshot`. -/
def currentSnapshotId (db : Database) : Option String := db.current

def enforceLimit (kind : String) (actual limit : Nat) : Except StoreError Unit :=
  if actual > limit then .error (.sliceLimitExceeded kind actual limit) else .ok ()

/-- The member records of a snapshot, in identifier order. -/
def memberRecords (db : Database) (snapshot : Snapshot) : List EvidenceNode :=
  snapshot.recordIds.toList.filterMap (db.records[·]?)

/-- The sources of a snapshot, in identifier order. -/
def loadSources (db : Database) (id : String) : List SourceState := values (db.snapshot id).sources

/-- All rows of a snapshot. -/
def snapshotSlice (db : Database) (id : String) : GraphSlice :=
  let snapshot := db.snapshot id
  ⟨id, memberRecords db snapshot, memberEdges db snapshot, snapshot.conflicts.toList,
    loadSources db id⟩

/-- The complete current graph, whatever its size. -/
def currentSlice (db : Database) : Option GraphSlice := db.current.map (snapshotSlice db)

/-- Load the complete current graph under one stable read transaction. -/
def loadCurrentSlice (db : Database) (limits : SliceLimits) :
    Except StoreError (Option GraphSlice) :=
  match currentSnapshotId db with
  | none => .ok none
  | some id => do
    let snapshot := db.snapshot id
    enforceLimit "nodes" snapshot.recordIds.size limits.maxNodes
    enforceLimit "edges" snapshot.edgeIds.size limits.maxEdges
    enforceLimit "conflicts" snapshot.conflicts.size limits.maxConflicts
    return some (snapshotSlice db id)

/-- The rows `REACHABLE_CTE` adds for one row: the targets of the snapshot's edges that leave it, and
    the counterparts of the snapshot's conflicts. -/
def reachableNext (full : GraphSlice) (id : String) : List String :=
  (full.edges.filter (·.sourceId = id)).map (·.targetId) ++
  (full.conflicts.filter (·.leftNodeId = id)).map (·.rightNodeId) ++
  (full.conflicts.filter (·.rightNodeId = id)).map (·.leftNodeId)

/-- `WITH RECURSIVE reachable(id)`.  The query ends when no new row appears, so it takes at most one
    row for each seed, edge and conflict side. -/
def reachable (full : GraphSlice) (seedIds : List String) : List String :=
  saturate (reachableNext full)
    (seedIds.length + full.edges.length + 2 * full.conflicts.length) seedIds

/-- The rows of a snapshot that the recursive query selects: reached records, edges that leave a
    reached record, and conflicts between reached records. -/
def reachableSlice (full : GraphSlice) (seedIds : List String) : GraphSlice :=
  let reached := reachable full seedIds
  { full with
    nodes := full.nodes.filter (·.id ∈ reached)
    edges := full.edges.filter (·.sourceId ∈ reached)
    conflicts := full.conflicts.filter fun conflict =>
      conflict.leftNodeId ∈ reached ∧ conflict.rightNodeId ∈ reached }

/-- The number of member records that the recursive query reaches. -/
def reachableCount (db : Database) (id : String) (seedIds : List String) : Nat :=
  ((reachable (snapshotSlice db id) seedIds).filter (· ∈ (db.snapshot id).recordIds)).length

/-- Load only current evidence reachable forward from explicit seed records. -/
def loadCurrentProofSlice (db : Database) (seedIds : List String) (limits : SliceLimits) :
    Except StoreError (Option GraphSlice) := do
  enforceLimit "nodes" seedIds.length limits.maxNodes
  match currentSnapshotId db with
  | none => return none
  | some id => do
    let slice := reachableSlice (snapshotSlice db id) seedIds
    enforceLimit "nodes" (reachableCount db id seedIds) limits.maxNodes
    enforceLimit "edges" slice.edges.length limits.maxEdges
    enforceLimit "conflicts" slice.conflicts.length limits.maxConflicts
    return some slice

/-- Load bounded records from one immutable snapshot identifier. -/
def loadSnapshotRecords (db : Database) (snapshotId : String) (maxNodes : Nat) :
    Except StoreError (List EvidenceNode) := do
  enforceLimit "nodes" (db.snapshot snapshotId).recordIds.size maxNodes
  return memberRecords db (db.snapshot snapshotId)

/-- Return source freshness for the current snapshot. -/
def currentFreshness (db : Database) : List SourceState :=
  match currentSnapshotId db with
  | none => []
  | some id => loadSources db id

/-- Return the latest cursor from the last successful publication for a source. -/
def sourceCursor (db : Database) (sourceId : String) : Option String := db.sourceCursors[sourceId]?

/-- The diagnostics of a snapshot, in insertion order. -/
def loadQuarantine (db : Database) (id : String) : List QuarantineDiagnostic :=
  (db.snapshot id).diagnostics

/-- Return sanitized quarantine diagnostics for the current snapshot. -/
def currentQuarantine (db : Database) : List QuarantineDiagnostic :=
  match currentSnapshotId db with
  | none => []
  | some id => loadQuarantine db id

/-! ### Limits -/

theorem enforceLimit_eq_ok {kind : String} {actual limit : Nat} {u : Unit} :
    enforceLimit kind actual limit = .ok u ↔ actual ≤ limit := by
  unfold enforceLimit
  by_cases h : actual > limit
  · rw [if_pos h]
    exact ⟨(nomatch ·), fun hle => absurd h (Nat.not_lt.mpr hle)⟩
  · rw [if_neg h]
    exact ⟨fun _ => Nat.not_lt.mp h, fun _ => rfl⟩

theorem loadSnapshotRecords_eq_ok {db : Database} {id : String} {maxNodes : Nat}
    {nodes : List EvidenceNode} :
    loadSnapshotRecords db id maxNodes = .ok nodes ↔
      (db.snapshot id).recordIds.size ≤ maxNodes ∧ nodes = memberRecords db (db.snapshot id) := by
  rw [loadSnapshotRecords, bind_eq_ok]
  simp only [enforceLimit_eq_ok]
  constructor
  · rintro ⟨_, hle, h⟩
    exact ⟨hle, (Except.ok.inj h).symm⟩
  · rintro ⟨hle, rfl⟩
    exact ⟨(), hle, rfl⟩

/-- A complete read succeeds exactly within its limits. -/
theorem loadCurrentSlice_eq_ok {db : Database} {limits : SliceLimits} {id : String}
    (hid : db.current = some id) {slice : Option GraphSlice} :
    loadCurrentSlice db limits = .ok slice ↔
      (db.snapshot id).recordIds.size ≤ limits.maxNodes ∧
      (db.snapshot id).edgeIds.size ≤ limits.maxEdges ∧
      (db.snapshot id).conflicts.size ≤ limits.maxConflicts ∧
      slice = some (snapshotSlice db id) := by
  rw [loadCurrentSlice, currentSnapshotId, hid]
  show (enforceLimit _ _ _ >>= _) = _ ↔ _
  simp only [bind_eq_ok, enforceLimit_eq_ok]
  constructor
  · rintro ⟨_, hnodes, _, hedges, _, hconflicts, h⟩
    exact ⟨hnodes, hedges, hconflicts, (Except.ok.inj h).symm⟩
  · rintro ⟨hnodes, hedges, hconflicts, rfl⟩
    exact ⟨(), hnodes, (), hedges, (), hconflicts, rfl⟩

/-- A slice within some limits. -/
structure Fits (slice : GraphSlice) (limits : SliceLimits) : Prop where
  nodes : slice.nodes.length ≤ limits.maxNodes
  edges : slice.edges.length ≤ limits.maxEdges
  conflicts : slice.conflicts.length ≤ limits.maxConflicts

/-- Limits decide whether a read succeeds, not what it returns. -/
theorem eq_currentSlice_of_load {db : Database} {limits : SliceLimits} {slice : Option GraphSlice}
    (h : loadCurrentSlice db limits = .ok slice) : slice = currentSlice db := by
  unfold currentSlice
  cases hid : db.current with
  | none =>
    unfold loadCurrentSlice currentSnapshotId at h
    rw [hid] at h
    exact (Except.ok.inj h).symm
  | some id =>
    obtain ⟨-, -, -, rfl⟩ := (loadCurrentSlice_eq_ok hid).mp h
    rfl

/-- Large enough limits let the complete graph be read. -/
theorem exists_loadCurrentSlice {db : Database} {slice : GraphSlice}
    (h : currentSlice db = some slice) :
    ∃ limits, loadCurrentSlice db limits = .ok (some slice) := by
  unfold currentSlice at h
  obtain ⟨id, hid, rfl⟩ := Option.map_eq_some_iff.mp h
  exact ⟨⟨_, _, _⟩, (loadCurrentSlice_eq_ok hid).mpr
    ⟨Nat.le_refl _, Nat.le_refl _, Nat.le_refl _, rfl⟩⟩

/-- A proof slice loads exactly within its limits, and is then what the recursive query selects. -/
theorem loadCurrentProofSlice_eq_ok {db : Database} {seedIds : List String} {limits : SliceLimits}
    {slice : GraphSlice} :
    loadCurrentProofSlice db seedIds limits = .ok (some slice) ↔
      ∃ id, db.current = some id ∧ seedIds.length ≤ limits.maxNodes ∧
        reachableCount db id seedIds ≤ limits.maxNodes ∧
        slice.edges.length ≤ limits.maxEdges ∧ slice.conflicts.length ≤ limits.maxConflicts ∧
        slice = reachableSlice (snapshotSlice db id) seedIds := by
  unfold loadCurrentProofSlice currentSnapshotId
  simp only [bind_eq_ok, enforceLimit_eq_ok]
  cases hid : db.current with
  | none =>
    constructor
    · rintro ⟨_, -, h⟩
      exact nomatch Except.ok.inj h
    · rintro ⟨id, h, -⟩
      exact nomatch h
  | some id =>
    simp only [bind_eq_ok, enforceLimit_eq_ok]
    constructor
    · rintro ⟨_, hseeds, _, hnodes, _, hedges, _, hconflicts, h⟩
      obtain rfl := Option.some.inj (Except.ok.inj h)
      exact ⟨id, rfl, hseeds, hnodes, hedges, hconflicts, rfl⟩
    · rintro ⟨id', hid', hseeds, hnodes, hedges, hconflicts, rfl⟩
      obtain rfl := Option.some.inj hid'
      exact ⟨(), hseeds, (), hnodes, (), hedges, (), hconflicts, rfl⟩

/-- A proof slice loads when everything that is reached fits the limits. -/
theorem loadCurrentProofSlice_of_currentSlice {db : Database} {full : GraphSlice}
    (hfull : currentSlice db = some full) {seedIds : List String} {limits : SliceLimits}
    (hseeds : seedIds.length ≤ limits.maxNodes)
    (hnodes : (reachable full seedIds).length ≤ limits.maxNodes)
    (hedges : (reachableSlice full seedIds).edges.length ≤ limits.maxEdges)
    (hconflicts : (reachableSlice full seedIds).conflicts.length ≤ limits.maxConflicts) :
    loadCurrentProofSlice db seedIds limits = .ok (some (reachableSlice full seedIds)) := by
  unfold currentSlice at hfull
  obtain ⟨id, hid, rfl⟩ := Option.map_eq_some_iff.mp hfull
  have hcount : reachableCount db id seedIds ≤ limits.maxNodes :=
    (List.length_filter_le _ _).trans hnodes
  exact loadCurrentProofSlice_eq_ok.mpr ⟨id, hid, hseeds, hcount, hedges, hconflicts, rfl⟩

/-! ### Members -/

theorem mem_memberRecords {db : Database} (hkeyed : KeyedBy EvidenceNode.id db.records)
    {snapshot : Snapshot} {node : EvidenceNode} :
    node ∈ memberRecords db snapshot ↔
      node.id ∈ snapshot.recordIds ∧ db.records[node.id]? = some node := by
  simp only [memberRecords, List.mem_filterMap, ExtTreeSet.mem_toList]
  constructor
  · rintro ⟨id, hid, hget⟩
    obtain rfl : node.id = id := hkeyed id node hget
    exact ⟨hid, hget⟩
  · rintro ⟨hid, hget⟩
    exact ⟨node.id, hid, hget⟩

theorem mem_memberEdges {db : Database} (hkeyed : KeyedBy EvidenceEdge.id db.edges)
    {snapshot : Snapshot} {edge : EvidenceEdge} :
    edge ∈ memberEdges db snapshot ↔
      edge.id ∈ snapshot.edgeIds ∧ db.edges[edge.id]? = some edge := by
  simp only [memberEdges, List.mem_filterMap, ExtTreeSet.mem_toList]
  constructor
  · rintro ⟨id, hid, hget⟩
    obtain rfl : edge.id = id := hkeyed id edge hget
    exact ⟨hid, hget⟩
  · rintro ⟨hid, hget⟩
    exact ⟨edge.id, hid, hget⟩

/-- Rows looked up in key order come out strictly increasing in their keys. -/
theorem pairwise_filterMap_getElem? {α : Type} {key : α → String} {m : StringMap α}
    (hkeyed : KeyedBy key m) (ids : StringSet) :
    (ids.toList.filterMap (m[·]?)).Pairwise (fun a b => compare (key a) (key b) = .lt) := by
  rw [List.pairwise_filterMap]
  refine ExtTreeSet.ordered_toList.imp ?_
  rintro a b hlt x hx y hy
  rw [hkeyed a x hx, hkeyed b y hy]
  exact hlt

theorem memberRecords_pairwise {db : Database} (hkeyed : KeyedBy EvidenceNode.id db.records)
    (snapshot : Snapshot) : (memberRecords db snapshot).Pairwise
      (fun a b => compare a.id b.id = .lt) :=
  pairwise_filterMap_getElem? hkeyed _

theorem memberEdges_pairwise {db : Database} (hkeyed : KeyedBy EvidenceEdge.id db.edges)
    (snapshot : Snapshot) : (memberEdges db snapshot).Pairwise
      (fun a b => compare a.id b.id = .lt) :=
  pairwise_filterMap_getElem? hkeyed _

/-! ### The recursive query -/

section Query

variable {full : GraphSlice}

/-- One step of the recursive query: along an edge, or across a conflict. -/
def SliceStep (full : GraphSlice) (a b : String) : Prop :=
  (∃ edge ∈ full.edges, edge.sourceId = a ∧ edge.targetId = b) ∨
  ∃ conflict ∈ full.conflicts,
    conflict.leftNodeId = a ∧ conflict.rightNodeId = b ∨
      conflict.rightNodeId = a ∧ conflict.leftNodeId = b

theorem mem_reachableNext {a b : String} : b ∈ reachableNext full a ↔ SliceStep full a b := by
  simp only [reachableNext, SliceStep, List.mem_append, List.mem_map, List.mem_filter,
    decide_eq_true_eq]
  constructor
  · rintro ((⟨edge, ⟨hmem, hsource⟩, htarget⟩ | ⟨conflict, ⟨hmem, hleft⟩, hright⟩) |
      ⟨conflict, ⟨hmem, hright⟩, hleft⟩)
    · exact Or.inl ⟨edge, hmem, hsource, htarget⟩
    · exact Or.inr ⟨conflict, hmem, Or.inl ⟨hleft, hright⟩⟩
    · exact Or.inr ⟨conflict, hmem, Or.inr ⟨hright, hleft⟩⟩
  · rintro (⟨edge, hmem, hsource, htarget⟩ | ⟨conflict, hmem, ⟨hleft, hright⟩ | ⟨hright, hleft⟩⟩)
    · exact Or.inl (Or.inl ⟨edge, ⟨hmem, hsource⟩, htarget⟩)
    · exact Or.inl (Or.inr ⟨conflict, ⟨hmem, hleft⟩, hright⟩)
    · exact Or.inr ⟨conflict, ⟨hmem, hright⟩, hleft⟩

/-- **The recursive query is reachability** from the seeds. -/
theorem mem_reachable {seedIds : List String} {id : String} :
    id ∈ reachable full seedIds ↔ ∃ seed ∈ seedIds, ReflTransGen (SliceStep full) seed id := by
  -- every row is a seed, or the end of an edge or of a conflict
  let rows := seedIds ++ full.edges.map (·.targetId) ++
    (full.conflicts.map (·.rightNodeId) ++ full.conflicts.map (·.leftNodeId))
  have hclosed : ∀ a ∈ rows, reachableNext full a ⊆ rows := by
    intro a _ b hb
    rcases mem_reachableNext.mp hb with ⟨edge, hmem, -, rfl⟩ | ⟨conflict, hmem, hends⟩
    · exact List.mem_append_left _ (List.mem_append_right _ (List.mem_map_of_mem hmem))
    · refine List.mem_append_right _ (List.mem_append.mpr ?_)
      rcases hends with ⟨-, rfl⟩ | ⟨-, rfl⟩
      · exact Or.inl (List.mem_map_of_mem hmem)
      · exact Or.inr (List.mem_map_of_mem hmem)
  have hseeds : seedIds ⊆ rows :=
    fun a ha => List.mem_append_left _ (List.mem_append_left _ ha)
  have hfuel : rows.length ≤ seedIds.length + full.edges.length + 2 * full.conflicts.length := by
    simp only [rows, List.length_append, List.length_map]
    omega
  have hstep : (fun a b => b ∈ reachableNext full a) = SliceStep full := by
    funext a b
    exact propext mem_reachableNext
  rw [reachable, mem_saturate hclosed hseeds hfuel, hstep]

end Query

end Rationale.Store
