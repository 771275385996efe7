import Rationale.Store.Slice

namespace Rationale.Store

open Std Rationale.Library

/-!
# What a candidate's operations do

One specification for each operation of `Candidate.lean`, and the run of them that fills and
publishes a snapshot.

* `withRecord`, `withEdge`, `withConflict` — the effect of an insertion that succeeds;
* `insertRecord_eq_ok`, `insertEdge_eq_ok`, `insertConflict_eq_ok` — when it does;
* `foldl_withRecord`, … — the effect of inserting a list, read off the tables;
* `publish_eq_ok` — publication succeeds exactly when the snapshot is closed.
-/

namespace CandidateSnapshot

variable {candidate : CandidateSnapshot}

/-- The candidate after a record is stored and added. -/
def withRecord (candidate : CandidateSnapshot) (node : EvidenceNode) : CandidateSnapshot :=
  { candidate with transaction := { candidate.transaction with
    records := candidate.transaction.records.insertIfNew node.id node } }.addRecord node.id

/-- The candidate after an edge is stored and added. -/
def withEdge (candidate : CandidateSnapshot) (edge : EvidenceEdge) : CandidateSnapshot :=
  { candidate with transaction := { candidate.transaction with
    edges := candidate.transaction.edges.insertIfNew edge.id edge } }.addEdge edge.id

/-- The candidate after a conflict is stored and added. -/
def withConflict (candidate : CandidateSnapshot) (conflict : Conflict) : CandidateSnapshot :=
  { candidate with transaction := { candidate.transaction with
    conflicts := candidate.transaction.conflicts.insert conflict } }.addConflict conflict

end CandidateSnapshot

/-- Whatever is stored under the item's key is the item itself. -/
def Agrees {α : Type} (key : α → String) (stored : StringMap α) (item : α) : Prop :=
  ∀ other, stored[key item]? = some other → other = item

section Agreement

variable {α : Type} {key : α → String} {stored : StringMap α} {item : α}

/-- After `INSERT OR IGNORE` the row under the key is the item iff the table agreed with it. -/
theorem getElem?_insertIfNew_self_iff :
    (stored.insertIfNew (key item) item)[key item]? = some item ↔ Agrees key stored item := by
  rw [ExtTreeMap.getElem?_insertIfNew]
  by_cases hmem : key item ∈ stored
  · rw [if_neg (by simp [hmem])]
    obtain ⟨other, hother⟩ := Option.isSome_iff_exists.mp
      (ExtTreeMap.isSome_getElem?_iff_mem.mpr hmem)
    constructor
    · intro h other' hother'
      exact Option.some.inj (hother'.symm.trans h)
    · intro h
      rw [hother, h other hother]
  · have hnone : stored[key item]? = none := ExtTreeMap.getElem?_eq_none hmem
    rw [if_pos (by simp [hmem])]
    exact ⟨fun _ other hother => (by simp [hnone] at hother), fun _ => rfl⟩

/-- Storing an item under another key does not change agreement. -/
theorem agrees_insertIfNew_iff {other : α} (hne : key item ≠ key other) :
    Agrees key (stored.insertIfNew (key item) item) other ↔ Agrees key stored other := by
  have hget : (stored.insertIfNew (key item) item)[key other]? = stored[key other]? := by
    rw [ExtTreeMap.getElem?_insertIfNew, if_neg]
    rintro ⟨h, -⟩
    exact hne (Std.compare_eq_iff_eq.mp h)
  unfold Agrees
  rw [hget]

end Agreement

variable {candidate candidate' : CandidateSnapshot}

theorem insertRecord_eq_ok {node : EvidenceNode} :
    candidate.insertRecord node = .ok candidate' ↔
      Agrees EvidenceNode.id candidate.transaction.records node ∧
        candidate' = candidate.withRecord node := by
  rw [← getElem?_insertIfNew_self_iff]
  show (if (candidate.transaction.records.insertIfNew node.id node)[node.id]? = some node then
    Except.ok (candidate.withRecord node) else _) = _ ↔ _
  split
  next h => exact ⟨fun hok => ⟨h, (Except.ok.inj hok).symm⟩, fun hok => congrArg _ hok.2.symm⟩
  next h => exact ⟨(nomatch ·), fun hok => absurd hok.1 h⟩

/-- An edge is accepted when its stored row agrees, or when there is none and its end points are
    stored. -/
def EdgeAccepted (candidate : CandidateSnapshot) (edge : EvidenceEdge) : Prop :=
  Agrees EvidenceEdge.id candidate.transaction.edges edge ∧
    (edge.id ∈ candidate.transaction.edges ∨ edge.sourceId ∈ candidate.transaction.records ∧
      edge.targetId ∈ candidate.transaction.records)

theorem insertEdge_eq_ok {edge : EvidenceEdge} :
    candidate.insertEdge edge = .ok candidate' ↔
      EdgeAccepted candidate edge ∧ candidate' = candidate.withEdge edge := by
  unfold CandidateSnapshot.insertEdge EdgeAccepted
  rw [← getElem?_insertIfNew_self_iff]
  split
  next hfk =>
    refine ⟨(nomatch ·), fun hok => ?_⟩
    obtain ⟨⟨-, hmem | ⟨hsource, htarget⟩⟩, -⟩ := hok
    · exact absurd hmem hfk.1
    · exact hfk.2.elim (absurd hsource) (absurd htarget)
  next hfk =>
    have hends : edge.id ∈ candidate.transaction.edges ∨
        edge.sourceId ∈ candidate.transaction.records ∧
          edge.targetId ∈ candidate.transaction.records := by tauto
    show (if (candidate.transaction.edges.insertIfNew edge.id edge)[edge.id]? = some edge then
      Except.ok (candidate.withEdge edge) else _) = _ ↔ _
    split
    next h => exact ⟨fun hok => ⟨⟨h, hends⟩, (Except.ok.inj hok).symm⟩,
        fun hok => congrArg _ hok.2.symm⟩
    next h => exact ⟨(nomatch ·), fun hok => absurd hok.1.1 h⟩

/-- A conflict is accepted when it is stored already, or when its end points are. -/
def ConflictAccepted (candidate : CandidateSnapshot) (conflict : Conflict) : Prop :=
  conflict ∈ candidate.transaction.conflicts ∨
    conflict.leftNodeId ∈ candidate.transaction.records ∧
      conflict.rightNodeId ∈ candidate.transaction.records

theorem insertConflict_eq_ok {conflict : Conflict} :
    candidate.insertConflict conflict = .ok candidate' ↔
      ConflictAccepted candidate conflict ∧ candidate' = candidate.withConflict conflict := by
  unfold CandidateSnapshot.insertConflict ConflictAccepted
  split
  next hfk =>
    refine ⟨(nomatch ·), fun hok => ?_⟩
    obtain ⟨hmem | ⟨hleft, hright⟩, -⟩ := hok
    · exact absurd hmem hfk.1
    · exact hfk.2.elim (absurd hleft) (absurd hright)
  next hfk =>
    exact ⟨fun hok => ⟨by tauto, (Except.ok.inj hok).symm⟩, fun hok => congrArg _ hok.2.symm⟩

/-! ### Inserting lists -/

/-- The effect of a list of record insertions. -/
theorem foldl_withRecord {nodes : List EvidenceNode} :
    nodes.foldl CandidateSnapshot.withRecord candidate =
      { candidate with
        transaction := { candidate.transaction with
          records := insertNewAll EvidenceNode.id candidate.transaction.records nodes }
        rows := { candidate.rows with
          recordIds := nodes.foldl (fun ids node => ids.insert node.id)
            candidate.rows.recordIds } } := by
  induction nodes generalizing candidate with
  | nil => rfl
  | cons node nodes ih =>
    rw [List.foldl_cons, ih]
    rfl

/-- The effect of a list of edge insertions. -/
theorem foldl_withEdge {edges : List EvidenceEdge} :
    edges.foldl CandidateSnapshot.withEdge candidate =
      { candidate with
        transaction := { candidate.transaction with
          edges := insertNewAll EvidenceEdge.id candidate.transaction.edges edges }
        rows := { candidate.rows with
          edgeIds := edges.foldl (fun ids edge => ids.insert edge.id) candidate.rows.edgeIds } } := by
  induction edges generalizing candidate with
  | nil => rfl
  | cons edge edges ih =>
    rw [List.foldl_cons, ih]
    rfl

/-- The effect of a list of conflict insertions. -/
theorem foldl_withConflict {conflicts : List Conflict} :
    conflicts.foldl CandidateSnapshot.withConflict candidate =
      { candidate with
        transaction := { candidate.transaction with
          conflicts := conflicts.foldl (fun set conflict => set.insert conflict)
            candidate.transaction.conflicts }
        rows := { candidate.rows with
          conflicts := conflicts.foldl (fun set conflict => set.insert conflict)
            candidate.rows.conflicts } } := by
  induction conflicts generalizing candidate with
  | nil => rfl
  | cons conflict conflicts ih =>
    rw [List.foldl_cons, ih]
    rfl

theorem foldl_setSourceState {sources : List SourceState} :
    sources.foldl CandidateSnapshot.setSourceState candidate =
      { candidate with rows := { candidate.rows with
          sources := insertAll SourceState.sourceId candidate.rows.sources sources } } := by
  induction sources generalizing candidate with
  | nil => rfl
  | cons source sources ih =>
    rw [List.foldl_cons, ih]
    rfl

theorem foldl_quarantine {diagnostics : List QuarantineDiagnostic} :
    diagnostics.foldl CandidateSnapshot.quarantine candidate =
      { candidate with rows := { candidate.rows with
          diagnostics := candidate.rows.diagnostics ++ diagnostics } } := by
  induction diagnostics generalizing candidate with
  | nil => simp
  | cons diagnostic diagnostics ih =>
    rw [List.foldl_cons, ih]
    simp [CandidateSnapshot.quarantine]

/-- Records with distinct identifiers are all accepted iff the table agrees with each of them. -/
theorem insertRecords_eq_ok {nodes : List EvidenceNode}
    (hnodup : nodes.Pairwise (fun a b => a.id ≠ b.id)) :
    nodes.foldlM CandidateSnapshot.insertRecord candidate = .ok candidate' ↔
      (∀ node ∈ nodes, Agrees EvidenceNode.id candidate.transaction.records node) ∧
        candidate' = nodes.foldl CandidateSnapshot.withRecord candidate := by
  have hkeep : ∀ (c : CandidateSnapshot) (a b : EvidenceNode), a.id ≠ b.id →
      (Agrees EvidenceNode.id (c.withRecord a).transaction.records b ↔
        Agrees EvidenceNode.id c.transaction.records b) :=
    fun _ _ _ hne => agrees_insertIfNew_iff hne
  rw [foldlM_eq_ok_iff (fun _ _ _ => insertRecord_eq_ok), along_iff_forall hkeep hnodup]

/-- Edges with distinct identifiers and stored end points are all accepted iff the table agrees
    with each of them. -/
theorem insertEdges_eq_ok {edges : List EvidenceEdge}
    (hnodup : edges.Pairwise (fun a b => a.id ≠ b.id))
    (hends : ∀ edge ∈ edges, edge.sourceId ∈ candidate.transaction.records ∧
      edge.targetId ∈ candidate.transaction.records) :
    edges.foldlM CandidateSnapshot.insertEdge candidate = .ok candidate' ↔
      (∀ edge ∈ edges, Agrees EvidenceEdge.id candidate.transaction.edges edge) ∧
        candidate' = edges.foldl CandidateSnapshot.withEdge candidate := by
  have hkeep : ∀ (c : CandidateSnapshot) (a b : EvidenceEdge), a.id ≠ b.id →
      (EdgeAccepted (c.withEdge a) b ↔ EdgeAccepted c b) := by
    intro c a b hne
    have hmem : b.id ∈ (c.withEdge a).transaction.edges ↔ b.id ∈ c.transaction.edges := by
      show b.id ∈ c.transaction.edges.insertIfNew a.id a ↔ _
      rw [ExtTreeMap.mem_insertIfNew]
      simp [hne]
    exact and_congr (agrees_insertIfNew_iff hne) (or_congr_left hmem)
  rw [foldlM_eq_ok_iff (fun _ _ _ => insertEdge_eq_ok), along_iff_forall hkeep hnodup]
  refine and_congr_left (fun _ => ?_)
  constructor
  · exact fun h edge hedge => (h edge hedge).1
  · exact fun h edge hedge => ⟨h edge hedge, Or.inr (hends edge hedge)⟩

/-- Conflicts with stored end points are all accepted. -/
theorem insertConflicts_eq_ok {conflicts : List Conflict}
    (hends : ∀ conflict ∈ conflicts, conflict.leftNodeId ∈ candidate.transaction.records ∧
      conflict.rightNodeId ∈ candidate.transaction.records) :
    conflicts.foldlM CandidateSnapshot.insertConflict candidate = .ok candidate' ↔
      candidate' = conflicts.foldl CandidateSnapshot.withConflict candidate := by
  rw [foldlM_eq_ok_iff (fun _ _ _ => insertConflict_eq_ok)]
  refine and_iff_right (along_of_forall ?_ (fun conflict hconflict => Or.inr (hends _ hconflict)))
  -- storing a conflict removes neither a conflict nor a record
  intro c a b hb
  exact hb.imp_left (fun h => ExtTreeSet.mem_insert.mpr (Or.inr h))

/-! ### Publication -/

/-- Every member edge and conflict of a snapshot stays inside it. -/
structure Closed (db : Database) (snapshot : Snapshot) : Prop where
  edges : ∀ edge ∈ memberEdges db snapshot,
    edge.sourceId ∈ snapshot.recordIds ∧ edge.targetId ∈ snapshot.recordIds
  conflicts : ∀ conflict ∈ snapshot.conflicts,
    conflict.leftNodeId ∈ snapshot.recordIds ∧ conflict.rightNodeId ∈ snapshot.recordIds

theorem validateCandidate_eq_ok {db : Database} {snapshot : Snapshot} {u : Unit} :
    validateCandidate db snapshot = .ok u ↔ Closed db snapshot := by
  unfold validateCandidate
  split
  next edge hfound =>
    refine ⟨(nomatch ·), fun hclosed => ?_⟩
    have hends := hclosed.edges edge (List.mem_of_find?_eq_some hfound)
    have hleaves := List.find?_some hfound
    simp [hends] at hleaves
  next hnone =>
    have hedges : ∀ edge ∈ memberEdges db snapshot,
        edge.sourceId ∈ snapshot.recordIds ∧ edge.targetId ∈ snapshot.recordIds := by
      intro edge hedge
      have h := List.find?_eq_none.mp hnone edge hedge
      simpa using h
    have hmissing : (snapshot.conflicts.toList.filter fun conflict =>
        conflict.leftNodeId ∉ snapshot.recordIds ∨ conflict.rightNodeId ∉ snapshot.recordIds) = [] ↔
        ∀ conflict ∈ snapshot.conflicts, conflict.leftNodeId ∈ snapshot.recordIds ∧
          conflict.rightNodeId ∈ snapshot.recordIds := by
      simp
    -- the source takes the least rule; there is one exactly when a conflict is left over
    have hhead : ∀ l : List String, (sortBy compare l).head? = none ↔ l = [] := by
      intro l
      rw [List.head?_eq_none_iff]
      exact ⟨fun h => (h ▸ sortBy_perm l).nil_eq.symm, fun h => by rw [h]; rfl⟩
    dsimp only
    split
    next rule hrule =>
      refine ⟨(nomatch ·), fun hclosed => ?_⟩
      rw [hmissing.mpr hclosed.conflicts] at hrule
      exact nomatch hrule
    next hrule =>
      rw [hhead, List.map_eq_nil_iff, hmissing] at hrule
      exact ⟨fun _ => ⟨hedges, hrule⟩, fun _ => rfl⟩

/-- The database that the transaction commits. -/
def CandidateSnapshot.published (candidate : CandidateSnapshot) : Database :=
  { candidate.transaction.setSnapshot candidate.snapshotId
      { candidate.rows with state := .published } with
    sourceCursors := advanceCursors candidate.transaction.sourceCursors
      (values candidate.rows.sources)
    current := some candidate.snapshotId }

/-- **Publication** succeeds exactly when the snapshot is closed. -/
theorem publish_eq_ok {db : Database} :
    candidate.publish = .ok db ↔
      Closed candidate.transaction candidate.rows ∧ db = candidate.published := by
  unfold CandidateSnapshot.publish
  rw [bind_eq_ok]
  simp only [validateCandidate_eq_ok]
  constructor
  · rintro ⟨_, hclosed, h⟩
    exact ⟨hclosed, (Except.ok.inj h).symm⟩
  · rintro ⟨hclosed, rfl⟩
    exact ⟨(), hclosed, rfl⟩

end Rationale.Store
