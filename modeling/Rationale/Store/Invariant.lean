import Rationale.Store.Publication

namespace Rationale.Store

open Std Relation Rationale.Library

/-!
# The store's invariant

Every database that publications reach is `Valid`: its tables are keyed by the rows' own
identifiers, and every snapshot in it is published, stored in full and closed.

* `CandidateStep`, `Reachable` — the runs: whole write transactions, each of any number of
  statements;
* `Extends` — the immutable tables only grow, so what an older snapshot reads stays the same;
* `CandidateValid` — what every statement of an open transaction keeps;
* `Reachable.valid` — the invariant over whole runs.
-/

/-- One statement of an open write transaction. -/
inductive CandidateStep : CandidateSnapshot → CandidateSnapshot → Prop where
  | record {candidate candidate' : CandidateSnapshot} {node : EvidenceNode}
      (h : candidate.insertRecord node = .ok candidate') : CandidateStep candidate candidate'
  | edge {candidate candidate' : CandidateSnapshot} {edge : EvidenceEdge}
      (h : candidate.insertEdge edge = .ok candidate') : CandidateStep candidate candidate'
  | conflict {candidate candidate' : CandidateSnapshot} {conflict : Conflict}
      (h : candidate.insertConflict conflict = .ok candidate') : CandidateStep candidate candidate'
  | source (candidate : CandidateSnapshot) (source : SourceState) :
      CandidateStep candidate (candidate.setSourceState source)
  | diagnostic (candidate : CandidateSnapshot) (diagnostic : QuarantineDiagnostic) :
      CandidateStep candidate (candidate.quarantine diagnostic)

/-- The databases that whole publications reach from a fresh one. -/
inductive Reachable : Database → Prop where
  | empty : Reachable Database.empty
  | publish {db db' : Database} {id : String} {candidate candidate' : CandidateSnapshot}
      (h : Reachable db) (hbegin : beginCandidate db id = .ok candidate)
      (hfill : ReflTransGen CandidateStep candidate candidate')
      (hpublish : candidate'.publish = .ok db') : Reachable db'

/-- The immutable tables of `new` hold every row of `old`. -/
structure Extends (old new : Database) : Prop where
  records : ∀ (id : String) node, old.records[id]? = some node → new.records[id]? = some node
  edges : ∀ (id : String) edge, old.edges[id]? = some edge → new.edges[id]? = some edge
  conflicts : ∀ conflict ∈ old.conflicts, conflict ∈ new.conflicts

theorem Extends.refl (db : Database) : Extends db db :=
  ⟨fun _ _ h => h, fun _ _ h => h, fun _ h => h⟩

theorem Extends.trans {a b c : Database} (hab : Extends a b) (hbc : Extends b c) : Extends a c where
  records id node h := hbc.records id node (hab.records id node h)
  edges id edge h := hbc.edges id edge (hab.edges id edge h)
  conflicts conflict h := hbc.conflicts conflict (hab.conflicts conflict h)

/-- Every member row of a snapshot is in its immutable table. -/
structure Stored (db : Database) (snapshot : Snapshot) : Prop where
  records : ∀ id ∈ snapshot.recordIds, id ∈ db.records
  edges : ∀ id ∈ snapshot.edgeIds, id ∈ db.edges
  conflicts : ∀ conflict ∈ snapshot.conflicts, conflict ∈ db.conflicts

/-- A lookup of a present key survives the growth of the map. -/
theorem getElem?_eq_of_grows {α : Type} {old new : StringMap α}
    (hgrows : ∀ (k : String) a, old[k]? = some a → new[k]? = some a) {id : String} (hid : id ∈ old) :
    new[id]? = old[id]? := by
  obtain ⟨a, ha⟩ := Option.isSome_iff_exists.mp (ExtTreeMap.isSome_getElem?_iff_mem.mpr hid)
  rw [ha, hgrows id a ha]

theorem mem_of_grows {α : Type} {old new : StringMap α}
    (hgrows : ∀ (k : String) a, old[k]? = some a → new[k]? = some a) {id : String} (hid : id ∈ old) :
    id ∈ new := by
  rw [← ExtTreeMap.isSome_getElem?_iff_mem, getElem?_eq_of_grows hgrows hid,
    ExtTreeMap.isSome_getElem?_iff_mem]
  exact hid

section Growth

variable {old new : Database} {snapshot : Snapshot}

/-- What a stored snapshot reads does not change when the tables grow. -/
theorem Stored.memberRecords_eq (h : Stored old snapshot) (hext : Extends old new) :
    memberRecords new snapshot = memberRecords old snapshot := by
  refine List.filterMap_congr (fun id hid => ?_)
  exact getElem?_eq_of_grows hext.records (h.records id (ExtTreeSet.mem_toList.mp hid))

theorem Stored.memberEdges_eq (h : Stored old snapshot) (hext : Extends old new) :
    memberEdges new snapshot = memberEdges old snapshot := by
  refine List.filterMap_congr (fun id hid => ?_)
  exact getElem?_eq_of_grows hext.edges (h.edges id (ExtTreeSet.mem_toList.mp hid))

theorem Stored.mono (h : Stored old snapshot) (hext : Extends old new) : Stored new snapshot where
  records id hid := mem_of_grows hext.records (h.records id hid)
  edges id hid := mem_of_grows hext.edges (h.edges id hid)
  conflicts conflict hconflict := hext.conflicts conflict (h.conflicts conflict hconflict)

theorem Stored.closed_mono (h : Stored old snapshot) (hext : Extends old new)
    (hclosed : Closed old snapshot) : Closed new snapshot where
  edges := by
    rw [h.memberEdges_eq hext]
    exact hclosed.edges
  conflicts := hclosed.conflicts

end Growth

/-- Rows that are all stored are all read. -/
theorem length_filterMap_of_stored {α : Type} {m : StringMap α} {ids : StringSet}
    (h : ∀ id ∈ ids, id ∈ m) : (ids.toList.filterMap (m[·]?)).length = ids.size := by
  have hsome : ∀ id ∈ ids.toList, (m[id]?).isSome = true :=
    fun id hid => ExtTreeMap.isSome_getElem?_iff_mem.mpr (h id (ExtTreeSet.mem_toList.mp hid))
  rw [List.length_filterMap_eq_countP, List.countP_eq_length.mpr hsome, ExtTreeSet.length_toList]

/-! ### Inside a transaction -/

/-- What holds of a transaction over `base`, after any of its statements. -/
structure CandidateValid (base : Database) (candidate : CandidateSnapshot) : Prop where
  extends_base : Extends base candidate.transaction
  snapshots : candidate.transaction.snapshots = base.snapshots
  current : candidate.transaction.current = base.current
  records_keyed : KeyedBy EvidenceNode.id candidate.transaction.records
  edges_keyed : KeyedBy EvidenceEdge.id candidate.transaction.edges
  stored : Stored candidate.transaction candidate.rows

/-- `INSERT OR IGNORE` keeps every row and stores each under its own key. -/
theorem getElem?_insertIfNew_of_some {α : Type} {m : StringMap α} {k k' : String} {a b : α}
    (h : m[k]? = some a) : (m.insertIfNew k' b)[k]? = some a := by
  have hmem : k ∈ m := ExtTreeMap.isSome_getElem?_iff_mem.mp (by rw [h]; rfl)
  rw [ExtTreeMap.getElem?_insertIfNew, if_neg, h]
  rintro ⟨heq, hnot⟩
  exact hnot (Std.compare_eq_iff_eq.mp heq ▸ hmem)

theorem KeyedBy.insertIfNew {α : Type} {key : α → String} {m : StringMap α} (hm : KeyedBy key m)
    (a : α) : KeyedBy key (m.insertIfNew (key a) a) :=
  KeyedBy.insertNewAll (l := [a]) hm

section Statements

variable {base : Database} {candidate : CandidateSnapshot}

theorem CandidateValid.withRecord (h : CandidateValid base candidate) (node : EvidenceNode) :
    CandidateValid base (candidate.withRecord node) where
  extends_base := by
    refine h.extends_base.trans ⟨fun id stored hstored => ?_, fun _ _ h => h, fun _ h => h⟩
    exact getElem?_insertIfNew_of_some hstored
  snapshots := h.snapshots
  current := h.current
  records_keyed := KeyedBy.insertIfNew h.records_keyed node
  edges_keyed := h.edges_keyed
  stored := by
    refine ⟨fun id hid => ?_, h.stored.edges, h.stored.conflicts⟩
    have hid' : id ∈ candidate.rows.recordIds.insert node.id := hid
    show id ∈ candidate.transaction.records.insertIfNew node.id node
    rw [ExtTreeMap.mem_insertIfNew]
    rcases ExtTreeSet.mem_insert.mp hid' with heq | hmem
    · exact Or.inl heq
    · exact Or.inr (h.stored.records id hmem)

theorem CandidateValid.withEdge (h : CandidateValid base candidate) (edge : EvidenceEdge) :
    CandidateValid base (candidate.withEdge edge) where
  extends_base := by
    refine h.extends_base.trans ⟨fun _ _ h => h, fun id stored hstored => ?_, fun _ h => h⟩
    exact getElem?_insertIfNew_of_some hstored
  snapshots := h.snapshots
  current := h.current
  records_keyed := h.records_keyed
  edges_keyed := KeyedBy.insertIfNew h.edges_keyed edge
  stored := by
    refine ⟨h.stored.records, fun id hid => ?_, h.stored.conflicts⟩
    have hid' : id ∈ candidate.rows.edgeIds.insert edge.id := hid
    show id ∈ candidate.transaction.edges.insertIfNew edge.id edge
    rw [ExtTreeMap.mem_insertIfNew]
    rcases ExtTreeSet.mem_insert.mp hid' with heq | hmem
    · exact Or.inl heq
    · exact Or.inr (h.stored.edges id hmem)

theorem CandidateValid.withConflict (h : CandidateValid base candidate) (conflict : Conflict) :
    CandidateValid base (candidate.withConflict conflict) where
  extends_base := by
    refine h.extends_base.trans ⟨fun _ _ h => h, fun _ _ h => h, fun other hother => ?_⟩
    exact ExtTreeSet.mem_insert.mpr (Or.inr hother)
  snapshots := h.snapshots
  current := h.current
  records_keyed := h.records_keyed
  edges_keyed := h.edges_keyed
  stored := by
    refine ⟨h.stored.records, h.stored.edges, fun other hother => ?_⟩
    have hother' : other ∈ candidate.rows.conflicts.insert conflict := hother
    show other ∈ candidate.transaction.conflicts.insert conflict
    rw [ExtTreeSet.mem_insert]
    exact (ExtTreeSet.mem_insert.mp hother').imp_right (h.stored.conflicts other)

/-- Every statement of a transaction keeps `CandidateValid`. -/
theorem CandidateValid.step (h : CandidateValid base candidate) {candidate' : CandidateSnapshot}
    (hstep : CandidateStep candidate candidate') : CandidateValid base candidate' := by
  cases hstep with
  | record hok =>
    obtain ⟨-, rfl⟩ := insertRecord_eq_ok.mp hok
    exact h.withRecord _
  | edge hok =>
    obtain ⟨-, rfl⟩ := insertEdge_eq_ok.mp hok
    exact h.withEdge _
  | conflict hok =>
    obtain ⟨-, rfl⟩ := insertConflict_eq_ok.mp hok
    exact h.withConflict _
  | source source =>
    exact ⟨h.extends_base, h.snapshots, h.current, h.records_keyed, h.edges_keyed,
      ⟨h.stored.records, h.stored.edges, h.stored.conflicts⟩⟩
  | diagnostic diagnostic =>
    exact ⟨h.extends_base, h.snapshots, h.current, h.records_keyed, h.edges_keyed,
      ⟨h.stored.records, h.stored.edges, h.stored.conflicts⟩⟩

/-- So does every sequence of statements. -/
theorem CandidateValid.steps (h : CandidateValid base candidate) {candidate' : CandidateSnapshot}
    (hsteps : ReflTransGen CandidateStep candidate candidate') : CandidateValid base candidate' := by
  induction hsteps with
  | refl => exact h
  | tail _ hstep ih => exact ih.step hstep

end Statements

/-! ### Between transactions -/

/-- **The invariant of the evidence database.** -/
structure Valid (db : Database) : Prop where
  records_keyed : KeyedBy EvidenceNode.id db.records
  edges_keyed : KeyedBy EvidenceEdge.id db.edges
  stored : ∀ (id : String) snapshot, db.snapshots[id]? = some snapshot → Stored db snapshot
  closed : ∀ (id : String) snapshot, db.snapshots[id]? = some snapshot → Closed db snapshot
  published : ∀ (id : String) snapshot, db.snapshots[id]? = some snapshot → snapshot.state = .published
  current : ∀ id, db.current = some id → id ∈ db.snapshots

theorem valid_empty : Valid Database.empty where
  records_keyed := keyedBy_empty
  edges_keyed := keyedBy_empty
  stored id snapshot h := by simp [Database.empty] at h
  closed id snapshot h := by simp [Database.empty] at h
  published id snapshot h := by simp [Database.empty] at h
  current id h := by simp [Database.empty] at h

/-- A new transaction adds nothing to its database. -/
theorem candidateValid_begin {db : Database} (hv : Valid db) {id : String}
    {candidate : CandidateSnapshot} (h : beginCandidate db id = .ok candidate) :
    CandidateValid db candidate := by
  unfold beginCandidate at h
  split at h
  · exact nomatch h
  · obtain rfl := Except.ok.inj h
    refine ⟨Extends.refl db, rfl, rfl, hv.records_keyed, hv.edges_keyed, ?_, ?_, ?_⟩ <;>
      intro _ hmem <;> simp [Snapshot.candidate] at hmem

/-- Committing a transaction keeps the invariant: the older snapshots read the same rows as before,
    and the new one was checked. -/
theorem CandidateValid.valid_published {db : Database} (hv : Valid db)
    {candidate : CandidateSnapshot} (h : CandidateValid db candidate)
    (hclosed : Closed candidate.transaction candidate.rows) : Valid candidate.published := by
  have hget : ∀ id : String, candidate.published.snapshots[id]? =
      if candidate.snapshotId = id then some { candidate.rows with state := .published }
      else db.snapshots[id]? := by
    intro id
    rw [← h.snapshots]
    exact Database.getElem?_setSnapshot _ _ _ _
  constructor
  case records_keyed => exact h.records_keyed
  case edges_keyed => exact h.edges_keyed
  case stored =>
    intro id snapshot hsnapshot
    rw [hget] at hsnapshot
    by_cases hid : candidate.snapshotId = id
    · rw [if_pos hid] at hsnapshot
      obtain rfl := Option.some.inj hsnapshot
      exact ⟨h.stored.records, h.stored.edges, h.stored.conflicts⟩
    · rw [if_neg hid] at hsnapshot
      -- the transaction only adds rows, and an older snapshot refers to rows of the base
      have hold := (hv.stored id snapshot hsnapshot).mono h.extends_base
      exact ⟨hold.records, hold.edges, hold.conflicts⟩
  case closed =>
    intro id snapshot hsnapshot
    rw [hget] at hsnapshot
    by_cases hid : candidate.snapshotId = id
    · rw [if_pos hid] at hsnapshot
      obtain rfl := Option.some.inj hsnapshot
      exact ⟨hclosed.edges, hclosed.conflicts⟩
    · rw [if_neg hid] at hsnapshot
      have hold := (hv.stored id snapshot hsnapshot).closed_mono h.extends_base
        (hv.closed id snapshot hsnapshot)
      exact ⟨hold.edges, hold.conflicts⟩
  case published =>
    intro id snapshot hsnapshot
    rw [hget] at hsnapshot
    by_cases hid : candidate.snapshotId = id
    · rw [if_pos hid] at hsnapshot
      obtain rfl := Option.some.inj hsnapshot
      rfl
    · rw [if_neg hid] at hsnapshot
      exact hv.published id snapshot hsnapshot
  case current =>
    intro id hcurrent
    obtain rfl := Option.some.inj hcurrent
    exact ExtTreeMap.isSome_getElem?_iff_mem.mp (by rw [hget, if_pos rfl]; rfl)

/-- **The invariant holds over every run.** -/
theorem Reachable.valid {db : Database} (h : Reachable db) : Valid db := by
  induction h with
  | empty => exact valid_empty
  | @publish db db' id candidate candidate' _ hbegin hfill hpublish hv =>
    have hfilled := (candidateValid_begin hv hbegin).steps hfill
    obtain ⟨hclosed, rfl⟩ := publish_eq_ok.mp hpublish
    exact hfilled.valid_published hv hclosed

/-- The rows of the current snapshot are stored and closed. -/
theorem Valid.snapshot_current {db : Database} (hv : Valid db) {id : String}
    (hid : db.current = some id) : Stored db (db.snapshot id) ∧ Closed db (db.snapshot id) := by
  obtain ⟨snapshot, hsnapshot⟩ :=
    Option.isSome_iff_exists.mp (ExtTreeMap.isSome_getElem?_iff_mem.mpr (hv.current id hid))
  have hrows : db.snapshot id = snapshot := by
    unfold Database.snapshot
    rw [hsnapshot]
    rfl
  rw [hrows]
  exact ⟨hv.stored id snapshot hsnapshot, hv.closed id snapshot hsnapshot⟩

/-- **The complete graph is read** exactly when it fits the limits. -/
theorem Valid.loadCurrentSlice_iff {db : Database} (hv : Valid db) {slice : GraphSlice}
    (hslice : currentSlice db = some slice) {limits : SliceLimits} :
    loadCurrentSlice db limits = .ok (some slice) ↔ Fits slice limits := by
  unfold currentSlice at hslice
  obtain ⟨id, hid, rfl⟩ := Option.map_eq_some_iff.mp hslice
  have hstored := (hv.snapshot_current hid).1
  let snapshot := db.snapshot id
  have hnodes : (memberRecords db snapshot).length = snapshot.recordIds.size :=
    length_filterMap_of_stored hstored.records
  have hedges : (memberEdges db snapshot).length = snapshot.edgeIds.size :=
    length_filterMap_of_stored hstored.edges
  have hconflicts : snapshot.conflicts.toList.length = snapshot.conflicts.size :=
    ExtTreeSet.length_toList
  rw [loadCurrentSlice_eq_ok hid, ← hnodes, ← hedges, ← hconflicts]
  constructor
  · exact fun h => ⟨h.1, h.2.1, h.2.2.1⟩
  · exact fun h => ⟨h.nodes, h.edges, h.conflicts, rfl⟩

/-- Before the first publication there is nothing to read. -/
theorem loadCurrentSlice_none {db : Database} (hslice : currentSlice db = none)
    (limits : SliceLimits) : loadCurrentSlice db limits = .ok none := by
  have hid : db.current = none := Option.map_eq_none_iff.mp hslice
  unfold loadCurrentSlice currentSnapshotId
  rw [hid]

end Rationale.Store
