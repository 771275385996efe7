import Rationale.Kernel.SubRequest

namespace Rationale.Kernel

open Std Relation Rationale.Library

/-!
# Requests with one active graph

Whatever two requests differ in, they are answered in the same way when their active evidence
graphs are the same.

* `SameGraph` — one goal, the same active nodes and edges, and the same conflicts between them;
* `traversalOf_sameGraph` — the traversals are literally the same;
* `evaluate_sameGraph` — and so are the responses;
* `exists_traversal_of_subgraph` — a request with fewer active edges stays within the path-state
  limit when the other one does.
-/

/-- Two requests for one goal with the same active evidence graph. -/
structure SameGraph (left right : KernelRequest) : Prop where
  goal : left.goal = right.goal
  activeNode : ∀ node, ActiveNode left node ↔ ActiveNode right node
  activeEdge : ∀ edge, ActiveEdge left edge ↔ ActiveEdge right edge
  /-- Conflicts between active records are in both. -/
  conflict : ∀ conflict, Active left conflict.leftNodeId → Active left conflict.rightNodeId →
    (conflict ∈ left.conflicts ↔ conflict ∈ right.conflicts)
  /-- The target may be inactive, but is of one kind. -/
  target_kind : ∀ node ∈ left.nodes, ∀ node' ∈ right.nodes, node.id = left.goal.targetId →
    node'.id = left.goal.targetId → node.kind = node'.kind

/-- Two requests with the identifiers that a response echoes. -/
structure SameIds (left right : KernelRequest) : Prop where
  requestId : left.requestId = right.requestId
  snapshotId : left.snapshotId = right.snapshotId

section Graph

variable {left right : KernelRequest} (h : SameGraph left right)

include h

theorem SameGraph.active_iff {id : String} : Active left id ↔ Active right id :=
  exists_congr (fun node => and_congr_left (fun _ => h.activeNode node))

theorem SameGraph.symm : SameGraph right left where
  goal := h.goal.symm
  activeNode node := (h.activeNode node).symm
  activeEdge edge := (h.activeEdge edge).symm
  conflict conflict hleft hright :=
    (h.conflict conflict (h.active_iff.mpr hleft) (h.active_iff.mpr hright)).symm
  target_kind node hnode node' hnode' hid hid' := by
    rw [← h.goal] at hid hid'
    exact (h.target_kind node' hnode' node hnode hid' hid).symm

theorem SameGraph.reachable_iff {id : String} : Reachable left id ↔ Reachable right id := by
  have hstep : Step left = Step right := by
    funext a b
    exact propext (exists_congr (fun edge => and_congr_left (fun _ => h.activeEdge edge)))
  unfold Reachable
  rw [hstep, h.goal]

theorem SameGraph.anchor_iff {id : String} : Anchor left id ↔ Anchor right id := by
  unfold Anchor
  rw [h.goal]
  exact exists_congr (fun node => and_congr_left (fun _ => h.activeNode node))

theorem SameGraph.reached {id : String} (hreached : Reached left id) : Reached right id :=
  ⟨h.active_iff.mp hreached.1, h.reachable_iff.mp hreached.2⟩

theorem SameGraph.materialConflict {conflict : Conflict}
    (hconflict : MaterialConflict left conflict) : MaterialConflict right conflict := by
  cases hconflict with
  | explicit hmem hl hr =>
    exact .explicit ((h.conflict conflict hl.1 hr.1).mp hmem) (h.reached hl) (h.reached hr)
  | outcomes hla hra hlr hrr hlk hrk hls hrs hlo hro hne hlt =>
    exact .outcomes ((h.activeNode _).mp hla) ((h.activeNode _).mp hra) (h.reachable_iff.mp hlr)
      (h.reachable_iff.mp hrr) hlk hrk hls hrs hlo hro hne hlt

variable (hl : Validated left) (hr : Validated right)

include hl hr

/-- The active edge lists are the same, sorted as they are. -/
theorem activeEdgesOf_sameGraph : activeEdgesOf left = activeEdgesOf right := by
  have hnodup : ∀ request : KernelRequest, Validated request → (activeEdgesOf request).Nodup :=
    fun request hv => (traversalInput_of_validated hv).ids_nodup.of_map _
  have hperm : (activeEdgesOf left).Perm (activeEdgesOf right) := by
    refine (List.perm_ext_iff_of_nodup (hnodup left hl) (hnodup right hr)).mpr (fun edge => ?_)
    rw [mem_activeEdgesOf hl, mem_activeEdgesOf hr, h.activeEdge]
  have hsorted : ∀ request, sortBy compareEdges (activeEdgesOf request) = activeEdgesOf request :=
    fun request => sortBy_eq_self (sortBy_pairwise _)
  rw [← hsorted left, ← hsorted right]
  refine sortBy_eq_of_perm hperm (fun edge hedge other hother heq => ?_)
  have hid : edge.id = other.id := by
    simp only [compareEdges, compareLex, compareOn, Ordering.then_eq_eq, Std.compare_eq_iff_eq]
      at heq
    exact heq.2.2
  exact List.inj_on_of_nodup_map (traversalInput_of_validated hl).ids_nodup hedge hother hid

/-- The traversals are the same. -/
theorem traversalOf_sameGraph : traversalOf left = traversalOf right := by
  have hrecords : recordsAnchor left.goal (nodeMap left.nodes) (supersededOf left) =
      recordsAnchor right.goal (nodeMap right.nodes) (supersededOf right) := by
    funext path
    rw [Bool.eq_iff_iff, recordsAnchor_iff, recordsAnchor_iff, anchorId_iff hl, anchorId_iff hr,
      h.anchor_iff]
  unfold traversalOf
  rw [(traversalInput_of_validated hl).traverse_eq, (traversalInput_of_validated hr).traverse_eq,
    activeEdgesOf_sameGraph h hl hr]
  unfold traversalOfPaths
  rw [hrecords, h.goal]

/-- The conflicts found are the same. -/
theorem conflictsOf_sameGraph {reachable : StringSet}
    (hreach : ∀ id, id ∈ reachable ↔ Reachable left id) :
    conflictsOf left reachable = conflictsOf right reachable := by
  have hreach' : ∀ id, id ∈ reachable ↔ Reachable right id := fun id =>
    (hreach id).trans h.reachable_iff
  refine eq_of_pairwise_lt_of_mem_iff (sortUniq_pairwise _) (sortUniq_pairwise _) (fun conflict => ?_)
  show conflict ∈ conflictsOf left reachable ↔ conflict ∈ conflictsOf right reachable
  rw [mem_conflictsOf hl hreach, mem_conflictsOf hr hreach']
  exact ⟨h.materialConflict, h.symm.materialConflict⟩

/-- The end of an active path has one gap in both. -/
theorem gapFor_sameGraph {path : Path} (hpath : IsActivePath left path)
    {node node' : EvidenceNode} (hnode : node ∈ left.nodes) (hnode' : node' ∈ right.nodes)
    (hid : node.id = path.lastId) (hid' : node'.id = path.lastId) :
    gapFor node = gapFor node' := by
  have hkind : node.kind = node'.kind := by
    obtain ⟨edges, hactive, -⟩ := hpath
    have hreach : Reachable left path.lastId :=
      reachable_iff_activePath.mpr ⟨_, _, hactive, path.getLast?_nodeIds⟩
    by_cases htarget : path.lastId = left.goal.targetId
    · exact h.target_kind node hnode node' hnode' (hid.trans htarget) (hid'.trans htarget)
    · -- an active record is the same in both
      obtain ⟨active, hmem, hactiveId⟩ := hreach.active_of_ne htarget
      have hmem' := (h.activeNode active).mp hmem
      rw [hl.node_eq hnode hmem.mem (hid.trans hactiveId.symm),
        hr.node_eq hnode' hmem'.mem (hid'.trans hactiveId.symm)]
  have heq : node.id = node'.id := hid.trans hid'.symm
  unfold gapFor
  rw [hkind, heq]

/-- The proofs drawn from the traversal are the same. -/
theorem proofOf_sameGraph {traversal : Traversal} (ht : traversalOf left = .ok traversal) :
    proofOf (nodeMap left.nodes) traversal (conflictsOf left traversal.reachable) =
      proofOf (nodeMap right.nodes) traversal (conflictsOf right traversal.reachable) := by
  have hspec := traversalOf_spec hl ht
  have hspec' := traversalOf_spec hr ((traversalOf_sameGraph h hl hr).symm.trans ht)
  rw [← conflictsOf_sameGraph h hl hr hspec.mem_reachable]
  let conflicts := conflictsOf left traversal.reachable
  rcases proofOf_cases hl hspec conflicts with
    ⟨hne, hcase⟩ | ⟨heq, hanchors, hcase⟩ |
      ⟨heq, hanchors, frontier, node, hfrontier, hmem, hid, hcase⟩
  · rw [hcase]
    exact (if_pos hne).symm
  · rw [hcase]
    exact ((if_neg (not_not.mpr heq)).trans (if_pos hanchors)).symm
  · rcases proofOf_cases hr hspec' conflicts with
      ⟨hne, -⟩ | ⟨-, hanchors', -⟩ | ⟨-, -, frontier', node', hfrontier', hmem', hid', hcase'⟩
    · exact absurd heq hne
    · exact absurd hanchors hanchors'
    · obtain rfl := Option.some.inj (hfrontier.symm.trans hfrontier')
      have hpath := (hspec.mem_paths _).mp (deepestPath_spec hfrontier).1
      have hgap := gapFor_sameGraph h hl hr hpath hmem hmem' hid hid'
      rw [hcase, hcase']
      unfold incomplete
      rw [hgap]

/-- **One active graph, one answer.** -/
theorem evaluate_sameGraph (hids : SameIds left right) : evaluate left = evaluate right := by
  have htraversal := traversalOf_sameGraph h hl hr
  cases ht : traversalOf left with
  | error failure =>
    rw [evaluate_of_traversal_error hl ht,
      evaluate_of_traversal_error hr (htraversal.symm.trans ht), hids.requestId]
  | ok traversal =>
    rw [evaluate_of_traversal hl ht, evaluate_of_traversal hr (htraversal.symm.trans ht),
      proofOf_sameGraph h hl hr ht, hids.requestId, hids.snapshotId]

end Graph

/-- **Fewer edges, fewer paths**: a part of an active graph is traversed to the end when all of it
    is. -/
theorem exists_traversal_of_subgraph {part whole : KernelRequest} (hpart : Validated part)
    (hwhole : Validated whole) (hgoal : part.goal = whole.goal)
    (hedges : ∀ edge, ActiveEdge part edge → ActiveEdge whole edge)
    (h : ∃ traversal, traversalOf whole = .ok traversal) :
    ∃ traversal, traversalOf part = .ok traversal := by
  have hsubset : routes part.goal (activeEdgesOf part) ⊆
      routes whole.goal (activeEdgesOf whole) := by
    rintro es ⟨nodeIds, hroute⟩
    refine ⟨nodeIds, (route_iff_activePath hwhole).mpr ?_⟩
    have hpath := (route_iff_activePath hpart).mp hroute
    unfold ActivePath
    rw [← hgoal]
    exact hpath.of_edges (fun edge hedge => hedges edge (hpath.edges_mem edge hedge))
  have hle := (traversalInput_of_validated hwhole).exists_traverse_iff.mp h
  exact (traversalInput_of_validated hpart).exists_traverse_iff.mpr
    ((Set.encard_le_encard hsubset).trans hle)

end Rationale.Kernel
