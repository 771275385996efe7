import Mathlib.Data.Set.Card
import Rationale.Store.Invariant

namespace Rationale.Store

open Std Relation Rationale.Library

/-!
# What a proof slice is

The recursive query of `loadCurrentProofSlice` against the least closure of its seeds.

* `SliceClosure` — the least set with the seeds that is closed under the three step rules;
* `mem_reachable_iff_closure` — the query computes it;
* `ClosureSlice` — the rows of a snapshot inside the closure, in order and without loose ends;
* `loadsWithin_iff` — the read succeeds exactly when the closure is small enough;
* `closureSlice_of_load` — and then returns exactly the closure's rows.
-/

/-- The least set that holds the seeds and is closed under the snapshot's edges, from source to
    target, and under its conflicts in both directions. -/
inductive SliceClosure (full : GraphSlice) (seedIds : List String) : String → Prop where
  | seed {id : String} (mem : id ∈ seedIds) : SliceClosure full seedIds id
  | target {edge : EvidenceEdge} (mem : edge ∈ full.edges)
      (source : SliceClosure full seedIds edge.sourceId) : SliceClosure full seedIds edge.targetId
  | right {conflict : Conflict} (mem : conflict ∈ full.conflicts)
      (left : SliceClosure full seedIds conflict.leftNodeId) :
      SliceClosure full seedIds conflict.rightNodeId
  | left {conflict : Conflict} (mem : conflict ∈ full.conflicts)
      (right : SliceClosure full seedIds conflict.rightNodeId) :
      SliceClosure full seedIds conflict.leftNodeId

section Closure

variable {full : GraphSlice} {seedIds : List String}

/-- **The recursive query computes the closure.** -/
theorem mem_reachable_iff_closure {id : String} :
    id ∈ reachable full seedIds ↔ SliceClosure full seedIds id := by
  constructor
  · intro h
    obtain ⟨seed, hseed, hpath⟩ := mem_reachable.mp h
    clear h
    induction hpath with
    | refl => exact SliceClosure.seed hseed
    | tail _ hstep ih =>
      rcases hstep with ⟨edge, hedge, rfl, rfl⟩ | ⟨conflict, hconflict, ⟨rfl, rfl⟩ | ⟨rfl, rfl⟩⟩
      · exact SliceClosure.target hedge ih
      · exact SliceClosure.right hconflict ih
      · exact SliceClosure.left hconflict ih
  · -- a further step from what is reached is reached
    have hstep : ∀ a b, SliceStep full a b → a ∈ reachable full seedIds → b ∈ reachable full seedIds := by
      intro a b hab ha
      obtain ⟨seed, hseed, hpath⟩ := mem_reachable.mp ha
      exact mem_reachable.mpr ⟨seed, hseed, hpath.tail hab⟩
    intro h
    induction h with
    | seed hseed => exact mem_reachable.mpr ⟨_, hseed, ReflTransGen.refl⟩
    | target hedge _ ih => exact hstep _ _ (Or.inl ⟨_, hedge, rfl, rfl⟩) ih
    | right hconflict _ ih => exact hstep _ _ (Or.inr ⟨_, hconflict, Or.inl ⟨rfl, rfl⟩⟩) ih
    | left hconflict _ ih => exact hstep _ _ (Or.inr ⟨_, hconflict, Or.inr ⟨rfl, rfl⟩⟩) ih

/-- The rows of a snapshot inside the closure of some seeds. -/
structure ClosureSlice (full : GraphSlice) (seedIds : List String) (slice : GraphSlice) : Prop where
  snapshotId : slice.snapshotId = full.snapshotId
  mem_nodes : ∀ node, node ∈ slice.nodes ↔ node ∈ full.nodes ∧ SliceClosure full seedIds node.id
  mem_edges : ∀ edge, edge ∈ slice.edges ↔
    edge ∈ full.edges ∧ SliceClosure full seedIds edge.sourceId
  mem_conflicts : ∀ conflict, conflict ∈ slice.conflicts ↔ conflict ∈ full.conflicts ∧
    SliceClosure full seedIds conflict.leftNodeId ∧ SliceClosure full seedIds conflict.rightNodeId
  nodes_sorted : slice.nodes.Pairwise (fun a b => compare a.id b.id = .lt)
  edges_sorted : slice.edges.Pairwise (fun a b => compare a.id b.id = .lt)
  conflicts_sorted : slice.conflicts.Pairwise (fun a b => compareConflicts a b = .lt)
  edges_closed : ∀ edge ∈ slice.edges,
    (∃ node ∈ slice.nodes, node.id = edge.sourceId) ∧ ∃ node ∈ slice.nodes, node.id = edge.targetId
  conflicts_closed : ∀ conflict ∈ slice.conflicts,
    (∃ node ∈ slice.nodes, node.id = conflict.leftNodeId) ∧
      ∃ node ∈ slice.nodes, node.id = conflict.rightNodeId

/-- A closure within some limits. -/
structure ClosureFits (full : GraphSlice) (seedIds : List String) (limits : SliceLimits) : Prop where
  seeds : seedIds.length ≤ limits.maxNodes
  nodes : {node | node ∈ full.nodes ∧ SliceClosure full seedIds node.id}.ncard ≤ limits.maxNodes
  edges : {edge | edge ∈ full.edges ∧ SliceClosure full seedIds edge.sourceId}.ncard ≤
    limits.maxEdges
  conflicts : {conflict | conflict ∈ full.conflicts ∧
    SliceClosure full seedIds conflict.leftNodeId ∧
      SliceClosure full seedIds conflict.rightNodeId}.ncard ≤ limits.maxConflicts

end Closure

/-! ### Counting -/

/-- A list without repetition is as long as its set of elements is large. -/
theorem length_eq_ncard {α : Type} {l : List α} (hl : l.Nodup) {s : Set α}
    (h : ∀ a, a ∈ l ↔ a ∈ s) : l.length = s.ncard := by
  classical
  have hset : s = ↑l.toFinset := by
    ext a
    rw [← h, Finset.mem_coe, List.mem_toFinset]
  rw [hset, Set.ncard_coe_finset, List.toFinset_card_of_nodup hl]

/-- What increases strictly is without repetition. -/
theorem nodup_of_pairwise_lt {α β : Type} {cmp : β → β → Ordering} [TransCmp cmp] {key : α → β}
    {l : List α} (h : l.Pairwise (fun a b => cmp (key a) (key b) = .lt)) : l.Nodup :=
  (pairwise_key_ne h).imp (fun hne heq => hne (congrArg key heq))

/-- Where there is a current snapshot, a read that succeeds returns rows. -/
theorem exists_of_load {db : Database} {id : String} (hid : db.current = some id)
    {seedIds : List String} {limits : SliceLimits} {slice : Option GraphSlice}
    (hload : loadCurrentProofSlice db seedIds limits = .ok slice) : ∃ rows, slice = some rows := by
  cases slice with
  | some rows => exact ⟨rows, rfl⟩
  | none =>
    unfold loadCurrentProofSlice currentSnapshotId at hload
    simp only [hid, bind_eq_ok] at hload
    obtain ⟨-, -, -, -, -, -, -, -, hsome⟩ := hload
    exact nomatch Except.ok.inj hsome

section Reads

variable {db : Database} (hv : Valid db) {id : String} (hid : db.current = some id)
  {seedIds : List String}

include hv hid

/-- The record that a member identifier names. -/
theorem Valid.exists_memberRecord {k : String} (hk : k ∈ (db.snapshot id).recordIds) :
    ∃ node ∈ (snapshotSlice db id).nodes, node.id = k := by
  obtain ⟨hstored, -⟩ := hv.snapshot_current hid
  obtain ⟨node, hnode, rfl⟩ := hv.records_keyed.mem_iff.mp (hstored.records k hk)
  exact ⟨node, (mem_memberRecords hv.records_keyed).mpr
    ⟨hk, hv.records_keyed.mem_values_iff.mp hnode⟩, rfl⟩

/-- **The selected rows are the closure's rows.** -/
theorem closureSlice_reachableSlice :
    ClosureSlice (snapshotSlice db id) seedIds (reachableSlice (snapshotSlice db id) seedIds) := by
  obtain ⟨-, hclosed⟩ := hv.snapshot_current hid
  have hmem : ∀ node, node ∈ (reachableSlice (snapshotSlice db id) seedIds).nodes ↔
      node ∈ (snapshotSlice db id).nodes ∧ SliceClosure (snapshotSlice db id) seedIds node.id := by
    intro node
    simp [reachableSlice, mem_reachable_iff_closure]
  -- a member identifier in the closure names a selected record
  have hselected : ∀ k ∈ (db.snapshot id).recordIds, SliceClosure (snapshotSlice db id) seedIds k →
      ∃ node ∈ (reachableSlice (snapshotSlice db id) seedIds).nodes, node.id = k := by
    intro k hk hclosure
    obtain ⟨node, hnode, rfl⟩ := hv.exists_memberRecord hid hk
    exact ⟨node, (hmem node).mpr ⟨hnode, hclosure⟩, rfl⟩
  constructor
  case snapshotId => rfl
  case mem_nodes => exact hmem
  case mem_edges => exact fun edge => by simp [reachableSlice, mem_reachable_iff_closure]
  case mem_conflicts => exact fun conflict => by simp [reachableSlice, mem_reachable_iff_closure]
  case nodes_sorted => exact (memberRecords_pairwise hv.records_keyed _).filter _
  case edges_sorted => exact (memberEdges_pairwise hv.edges_keyed _).filter _
  case conflicts_sorted => exact ExtTreeSet.ordered_toList.filter _
  case edges_closed =>
    intro edge hedge
    have hfull : edge ∈ (snapshotSlice db id).edges := List.mem_of_mem_filter hedge
    obtain ⟨hsource, htarget⟩ := hclosed.edges edge hfull
    have hclosure : SliceClosure (snapshotSlice db id) seedIds edge.sourceId :=
      mem_reachable_iff_closure.mp (of_decide_eq_true (List.mem_filter.mp hedge).2)
    exact ⟨hselected _ hsource hclosure, hselected _ htarget (SliceClosure.target hfull hclosure)⟩
  case conflicts_closed =>
    intro conflict hconflict
    obtain ⟨hfull, hends⟩ := List.mem_filter.mp hconflict
    obtain ⟨hleft, hright⟩ := of_decide_eq_true hends
    have hmembers := hclosed.conflicts conflict (ExtTreeSet.mem_toList.mp hfull)
    exact ⟨hselected _ hmembers.1 (mem_reachable_iff_closure.mp hleft),
      hselected _ hmembers.2 (mem_reachable_iff_closure.mp hright)⟩

/-- The count of the query agrees with its rows. -/
theorem reachableCount_eq :
    reachableCount db id seedIds = (reachableSlice (snapshotSlice db id) seedIds).nodes.length := by
  have hslice := @closureSlice_reachableSlice db hv id hid seedIds
  have hnodup : ((reachableSlice (snapshotSlice db id) seedIds).nodes.map (·.id)).Nodup :=
    List.pairwise_map.mpr (pairwise_key_ne hslice.nodes_sorted)
  have hcount : ((reachable (snapshotSlice db id) seedIds).filter
      (· ∈ (db.snapshot id).recordIds)).Nodup := saturate_nodup.filter _
  rw [reachableCount, ← List.length_map (EvidenceNode.id)]
  refine ((List.perm_ext_iff_of_nodup hcount hnodup).mpr (fun k => ?_)).length_eq
  rw [List.mem_filter, decide_eq_true_eq, mem_reachable_iff_closure, List.mem_map]
  constructor
  · rintro ⟨hclosure, hk⟩
    obtain ⟨node, hnode, rfl⟩ := hv.exists_memberRecord hid hk
    exact ⟨node, (hslice.mem_nodes node).mpr ⟨hnode, hclosure⟩, rfl⟩
  · rintro ⟨node, hnode, rfl⟩
    obtain ⟨hmember, hclosure⟩ := (hslice.mem_nodes node).mp hnode
    exact ⟨hclosure, ((mem_memberRecords hv.records_keyed).mp hmember).1⟩

/-- **A proof slice loads** exactly when the closure of its seeds is within the limits. -/
theorem loadsWithin_iff {limits : SliceLimits} :
    (∃ slice, loadCurrentProofSlice db seedIds limits = .ok slice) ↔
      ClosureFits (snapshotSlice db id) seedIds limits := by
  have hslice := @closureSlice_reachableSlice db hv id hid seedIds
  have hnodes := length_eq_ncard (nodup_of_pairwise_lt hslice.nodes_sorted) hslice.mem_nodes
  have hedges := length_eq_ncard (nodup_of_pairwise_lt hslice.edges_sorted) hslice.mem_edges
  have hconflicts := length_eq_ncard
    (@nodup_of_pairwise_lt _ _ compareConflicts _ (fun conflict => conflict) _
      hslice.conflicts_sorted) hslice.mem_conflicts
  constructor
  · rintro ⟨slice, hload⟩
    obtain ⟨rows, rfl⟩ := exists_of_load hid hload
    obtain ⟨id', hid', hseeds, hcount, hedge, hconflict, rfl⟩ :=
      loadCurrentProofSlice_eq_ok.mp hload
    obtain rfl := Option.some.inj (hid.symm.trans hid')
    rw [reachableCount_eq hv hid, hnodes] at hcount
    rw [hedges] at hedge
    rw [hconflicts] at hconflict
    exact ⟨hseeds, hcount, hedge, hconflict⟩
  · intro hfits
    refine ⟨_, loadCurrentProofSlice_eq_ok.mpr ⟨id, hid, hfits.seeds, ?_, ?_, ?_, rfl⟩⟩
    · rw [reachableCount_eq hv hid, hnodes]
      exact hfits.nodes
    · rw [hedges]
      exact hfits.edges
    · rw [hconflicts]
      exact hfits.conflicts

/-- What loads is the closure's part of the current snapshot. -/
theorem closureSlice_of_load {limits : SliceLimits} {slice : GraphSlice}
    (hload : loadCurrentProofSlice db seedIds limits = .ok (some slice)) :
    ClosureSlice (snapshotSlice db id) seedIds slice := by
  obtain ⟨id', hid', -, -, -, -, rfl⟩ := loadCurrentProofSlice_eq_ok.mp hload
  obtain rfl := Option.some.inj (hid.symm.trans hid')
  exact closureSlice_reachableSlice hv hid

end Reads

end Rationale.Store
