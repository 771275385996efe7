import Rationale.Kernel.Paths

namespace Rationale.Kernel

open Std Relation Rationale.Library

/-!
# What `traverse` computes for a request

For a validated request the kernel's maps and lists are read back as the notions of
`ActiveGraph.lean`, and the routes of `Paths.lean` as active paths.

* `mem_supersededNodes`, `activeId_iff`, `mem_activeEdgesOf` — one spec lemma for each helper of
  `evaluate`;
* `traversalInput_activeEdges` — `evaluate` calls `traverse` with arguments as `traverse_exact`
  expects them;
* `traversalOf_spec` — paths are the active paths, anchors the anchor paths, and `reachable` the
  reachable nodes; the only failure is the path-state limit.
-/

section Spec

variable {request : KernelRequest} (hv : Validated request)

/-- The superseded set of a request, as `evaluate` computes it. -/
def supersededOf (request : KernelRequest) : StringSet :=
  supersededNodes (nodeMap request.nodes) request.edges

/-- The active edge list of a request, as `evaluate` computes it. -/
def activeEdgesOf (request : KernelRequest) : List EvidenceEdge :=
  activeEdges (nodeMap request.nodes) (supersededOf request) request.edges

/-- The traversal of a request, as `evaluate` runs it. -/
def traversalOf (request : KernelRequest) : Except Failure Traversal :=
  traverse request.goal (nodeMap request.nodes) (supersededOf request) (activeEdgesOf request)

/-! ### Supersession and activity -/

/-- One edge supersedes its target when it is current, of kind `supersedes`, and its source is a
    current node of the map. -/
def Supersedes (nodes : NodeMap) (edge : EvidenceEdge) : Prop :=
  edge.kind = .supersedes ∧ edge.status = .current ∧
    ∃ source, nodes[edge.sourceId]? = some source ∧ source.status = .current

theorem mem_supersede {nodes : NodeMap} {superseded : StringSet} {edge : EvidenceEdge}
    {id : String} :
    id ∈ supersede nodes superseded edge ↔
      id ∈ superseded ∨ Supersedes nodes edge ∧ edge.targetId = id := by
  unfold supersede
  by_cases hskip : edge.status ≠ .current ∨ edge.kind ≠ .supersedes
  · rw [if_pos hskip]
    have hnot : ¬ Supersedes nodes edge := by
      rintro ⟨hkind, hstatus, _⟩
      exact hskip.elim (fun h => h hstatus) (fun h => h hkind)
    simp [hnot]
  · rw [if_neg hskip]
    rw [not_or, not_not, not_not] at hskip
    cases hsource : nodes[edge.sourceId]? with
    | none => simp [Supersedes, hsource]
    | some source =>
      by_cases hcurrent : source.status = .current
      · simp [Supersedes, hsource, hcurrent, hskip, or_comm]
      · simp [Supersedes, hsource, hcurrent]

theorem mem_supersededNodes {nodes : NodeMap} {edges : List EvidenceEdge} {acc : StringSet}
    {id : String} :
    id ∈ edges.foldl (supersede nodes) acc ↔
      id ∈ acc ∨ ∃ edge ∈ edges, Supersedes nodes edge ∧ edge.targetId = id := by
  induction edges generalizing acc with
  | nil => simp
  | cons edge edges ih =>
    rw [List.foldl_cons, ih, List.exists_mem_cons_iff, ← or_assoc, mem_supersede]

include hv

theorem mem_supersededOf {id : String} : id ∈ supersededOf request ↔ Superseded request id := by
  rw [supersededOf, supersededNodes, mem_supersededNodes]
  simp only [Std.ExtTreeSet.not_mem_empty, false_or, Supersedes, hv.getElem?_nodeMap]
  constructor
  · rintro ⟨edge, hedge, ⟨hkind, hstatus, source, ⟨hmem, hid⟩, hcurrent⟩, rfl⟩
    exact ⟨edge, hedge, hkind, hstatus, rfl, source, hmem, hid, hcurrent⟩
  · rintro ⟨edge, hedge, hkind, hstatus, rfl, source, hmem, hid, hcurrent⟩
    exact ⟨edge, hedge, ⟨hkind, hstatus, source, ⟨hmem, hid⟩, hcurrent⟩, rfl⟩

theorem activeNode_iff {node : EvidenceNode} (hmem : node ∈ request.nodes) :
    activeNode (supersededOf request) node = true ↔ ActiveNode request node := by
  rw [activeNode, Bool.and_eq_true, decide_eq_true_eq, Bool.not_eq_true', ← Bool.not_eq_true,
    ExtTreeSet.contains_iff_mem, mem_supersededOf hv]
  exact ⟨fun h => ⟨hmem, h.1, h.2⟩, fun h => ⟨h.current, h.notSuperseded⟩⟩

theorem activeId_iff {id : String} :
    activeId (nodeMap request.nodes) (supersededOf request) id = true ↔ Active request id := by
  unfold activeId
  cases hnode : (nodeMap request.nodes)[id]? with
  | none =>
    refine ⟨(nomatch ·), ?_⟩
    rintro ⟨node, hactive, hid⟩
    rw [hv.getElem?_nodeMap.mpr ⟨hactive.mem, hid⟩] at hnode
    exact nomatch hnode
  | some node =>
    obtain ⟨hmem, hid⟩ := hv.getElem?_nodeMap.mp hnode
    show activeNode (supersededOf request) node = true ↔ _
    rw [activeNode_iff hv hmem]
    refine ⟨fun h => ⟨node, h, hid⟩, ?_⟩
    rintro ⟨node', hactive, hid'⟩
    have heq := hv.getElem?_nodeMap.mpr ⟨hactive.mem, hid'⟩
    rw [hnode] at heq
    exact Option.some.inj heq ▸ hactive

theorem mem_activeEdgesOf {edge : EvidenceEdge} :
    edge ∈ activeEdgesOf request ↔ ActiveEdge request edge := by
  rw [activeEdgesOf, activeEdges, mem_sortBy, List.mem_filter, Bool.and_eq_true, Bool.and_eq_true,
    isTraversable_iff, activeId_iff hv, activeId_iff hv]
  constructor
  · rintro ⟨hmem, ⟨⟨hcurrent, hkind⟩, hsource⟩, htarget⟩
    exact ⟨hmem, hcurrent, hkind, hsource, htarget⟩
  · rintro ⟨hmem, hcurrent, hkind, hsource, htarget⟩
    exact ⟨hmem, ⟨⟨hcurrent, hkind⟩, hsource⟩, htarget⟩

omit hv

/-- **The arguments of `traverse`.** Whatever the superseded set, the active edges of a validated
    request lead between active nodes and have different identifiers. -/
theorem traversalInput_activeEdges (hv : Validated request) (superseded : StringSet)
    {goal : ProofGoal} (htarget : Known request goal.targetId) :
    TraversalInput goal (nodeMap request.nodes) superseded
      (activeEdges (nodeMap request.nodes) superseded request.edges) where
  keyed := keyedBy_indexBy
  target := mem_nodeMap.mpr htarget
  active := by
    intro edge hedge
    rw [activeEdges, mem_sortBy, List.mem_filter, Bool.and_eq_true, Bool.and_eq_true] at hedge
    exact ⟨hedge.2.1.2, hedge.2.2⟩
  ids_nodup := by
    have hsub : ((request.edges.filter fun edge => isTraversable edge &&
        activeId (nodeMap request.nodes) superseded edge.sourceId &&
        activeId (nodeMap request.nodes) superseded edge.targetId).map (·.id)).Nodup :=
      hv.edges_nodup.sublist (List.filter_sublist.map _)
    exact ((sortBy_perm _).map _).nodup_iff.mpr hsub

theorem traversalInput_of_validated (hv : Validated request) :
    TraversalInput request.goal (nodeMap request.nodes) (supersededOf request)
      (activeEdgesOf request) :=
  traversalInput_activeEdges hv _ hv.target_known

/-! ### Paths of the traversal -/

/-- A path of active edges, with edges named by their identifiers. -/
def IsActivePath (request : KernelRequest) (path : Path) : Prop :=
  ∃ edges, ActivePath request path.nodeIds edges ∧ path.edgeIds = edges.map (·.id)

include hv

/-- The routes over the active edges are the active paths. -/
theorem route_iff_activePath {nodeIds : List String} {edges : List EvidenceEdge} :
    Route request.goal (activeEdgesOf request) nodeIds edges ↔ ActivePath request nodeIds edges :=
  ⟨fun h => h.of_edges (fun edge hedge => (mem_activeEdgesOf hv).mp (h.edges_mem edge hedge)),
    fun h => h.of_edges (fun edge hedge => (mem_activeEdgesOf hv).mpr (h.edges_mem edge hedge))⟩

theorem isRoute_iff_isActivePath {path : Path} :
    IsRoute request.goal (activeEdgesOf request) path ↔ IsActivePath request path :=
  exists_congr (fun _ => and_congr_left (fun _ => route_iff_activePath hv))

theorem anchorId_iff {id : String} :
    AnchorId request.goal (nodeMap request.nodes) (supersededOf request) id ↔ Anchor request id := by
  constructor
  · rintro ⟨node, hnode, hactive, hanchor⟩
    obtain ⟨hmem, hid⟩ := hv.getElem?_nodeMap.mp hnode
    exact ⟨node, (activeNode_iff hv hmem).mp hactive, hid, (isAnchor_iff.mp hanchor).2⟩
  · rintro ⟨node, hactive, hid, hkind⟩
    exact ⟨node, hv.getElem?_nodeMap.mpr ⟨hactive.mem, hid⟩,
      (activeNode_iff hv hactive.mem).mpr hactive, isAnchor_iff.mpr ⟨hactive.current, hkind⟩⟩

omit hv

/-- What a finished traversal holds. -/
structure TraversalSpec (request : KernelRequest) (traversal : Traversal) : Prop where
  mem_paths : ∀ path, path ∈ traversal.paths ↔ IsActivePath request path
  mem_anchors : ∀ path, path ∈ traversal.anchors ↔
    IsActivePath request path ∧ Anchor request path.lastId
  mem_reachable : ∀ id, id ∈ traversal.reachable ↔ Reachable request id

include hv

/-- **Traversal correctness.** A finished traversal holds exactly the active paths, the anchor
    paths and the reachable nodes. -/
theorem traversalOf_spec {traversal : Traversal} (h : traversalOf request = .ok traversal) :
    TraversalSpec request traversal := by
  have hexhaustive := (traversalInput_of_validated hv).exhaustive h
  constructor
  case mem_paths =>
    intro path
    rw [hexhaustive.mem_paths, isRoute_iff_isActivePath hv]
  case mem_anchors =>
    intro path
    rw [hexhaustive.mem_anchors, isRoute_iff_isActivePath hv, anchorId_iff hv]
  case mem_reachable =>
    intro id
    rw [hexhaustive.mem_reachable, reachable_iff_activePath, reachable_iff_simplePath]
    exact exists_congr (fun _ => exists_congr (fun _ =>
      and_congr_left (fun _ => route_iff_activePath hv)))

/-- A traversal fails only at the path-state limit. -/
theorem traversalOf_error {failure : Failure} (h : traversalOf request = .error failure) :
    failure = pathStateLimit :=
  (traversalInput_of_validated hv).eq_pathStateLimit h

end Spec

end Rationale.Kernel
