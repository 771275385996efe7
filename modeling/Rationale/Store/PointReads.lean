import Rationale.Store.Invariant

namespace Rationale.Store

open Std Rationale.Library

/-!
# Reading one record

`EvidenceStore::current_record` and `EvidenceStore::record_origin` of
`crates/rationale-store/src/lib.rs`.

* `currentRecord_eq_some_iff` — one record is read exactly as part of the current graph.
-/

/-- Load one record only if it belongs to the current published snapshot. -/
def currentRecord (db : Database) (recordId : String) : Option EvidenceNode :=
  match currentSnapshotId db with
  | none => none
  | some id => if recordId ∈ (db.snapshot id).recordIds then db.records[recordId]? else none

/-- Look up the immutable origin for one stored record. -/
def recordOrigin (db : Database) (recordId : String) : Option Origin :=
  db.records[recordId]?.map (·.origin)

variable {db : Database} {recordId : String}

theorem currentRecord_eq_some_iff (hv : Valid db) {node : EvidenceNode} :
    currentRecord db recordId = some node ↔
      ∃ full, currentSlice db = some full ∧ node ∈ full.nodes ∧ node.id = recordId := by
  unfold currentRecord currentSnapshotId currentSlice
  cases db.current with
  | none => simp
  | some id =>
    show (if _ then _ else _) = _ ↔ _
    rw [Option.ite_none_right_eq_some]
    constructor
    · rintro ⟨hmem, hnode⟩
      obtain rfl : node.id = recordId := hv.records_keyed recordId node hnode
      exact ⟨_, rfl, (mem_memberRecords hv.records_keyed).mpr ⟨hmem, hnode⟩, rfl⟩
    · rintro ⟨full, hfull, hnode, rfl⟩
      obtain rfl := Option.some.inj hfull
      exact (mem_memberRecords hv.records_keyed).mp hnode

/-- A record that is read is stored with its origin. -/
theorem recordOrigin_of_currentRecord {node : EvidenceNode} (h : currentRecord db recordId = some node) :
    recordOrigin db recordId = some node.origin := by
  unfold currentRecord at h
  split at h
  · exact nomatch h
  · obtain ⟨-, hnode⟩ := Option.ite_none_right_eq_some.mp h
    unfold recordOrigin
    rw [hnode]
    rfl

end Rationale.Store
