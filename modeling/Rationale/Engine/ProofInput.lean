import Rationale.Engine.ProofSlice
import Rationale.Store.ProofClosure

namespace Rationale.Engine

open Std Rationale.Library Rationale.Git Rationale.Store

/-!
# The kernel's input is well formed

* `ClosedGraph` — the maps of a request under construction, with both ends of every edge present;
* `closedGraph_attachTarget` — attaching a target keeps them so, whatever the target;
* `wellFormed_proofRequest` — the request drawn from a slice without loose ends;
* `loadCurrentProofSlice_closure` — what `load_current_proof_slice` returns, and that the kernel never
  calls the resulting request invalid.
-/

/-- Self-keyed maps in which the ends of every edge are present. -/
structure ClosedGraph (graph : Graph) : Prop where
  nodes_keyed : KeyedBy EvidenceNode.id graph.nodes
  edges_keyed : KeyedBy EvidenceEdge.id graph.edges
  ends : ∀ (k : String) edge, graph.edges[k]? = some edge →
    edge.sourceId ∈ graph.nodes ∧ edge.targetId ∈ graph.nodes

section Graphs

variable {hash : String → String} {timestamp : Int → Option String} {graph : Graph}

/-- More nodes do not open a graph. -/
theorem ClosedGraph.withNodes (h : ClosedGraph graph) {nodes : StringMap EvidenceNode}
    (hkeyed : KeyedBy EvidenceNode.id nodes) (hmem : ∀ k ∈ graph.nodes, k ∈ nodes) :
    ClosedGraph ⟨nodes, graph.edges⟩ where
  nodes_keyed := hkeyed
  edges_keyed := h.edges_keyed
  ends k edge hedge :=
    ⟨hmem _ (h.ends k edge hedge).1, hmem _ (h.ends k edge hedge).2⟩

/-- Edges between present nodes do not open a graph. -/
theorem ClosedGraph.withEdges (h : ClosedGraph graph) {edges : List EvidenceEdge}
    (hends : ∀ edge ∈ edges, edge.sourceId ∈ graph.nodes ∧ edge.targetId ∈ graph.nodes) :
    ClosedGraph ⟨graph.nodes, insertAll EvidenceEdge.id graph.edges edges⟩ where
  nodes_keyed := h.nodes_keyed
  edges_keyed := h.edges_keyed.insertAll
  ends k edge hedge := by
    rcases mem_or_of_getElem?_insertAll hedge with ⟨hmem, -⟩ | hstored
    · exact hends edge hmem
    · exact h.ends k edge hstored

/-- A slice without loose ends. -/
theorem closedGraph_ofSlice {slice : GraphSlice}
    (hclosed : ∀ edge ∈ slice.edges, (∃ node ∈ slice.nodes, node.id = edge.sourceId) ∧
      ∃ node ∈ slice.nodes, node.id = edge.targetId) : ClosedGraph (Graph.ofSlice slice) where
  nodes_keyed := keyedBy_indexBy
  edges_keyed := keyedBy_indexBy
  ends k edge hedge := by
    obtain ⟨hsource, htarget⟩ := hclosed edge (mem_edges_of_getElem? hedge)
    exact ⟨mem_indexBy.mpr hsource, mem_indexBy.mpr htarget⟩

/-- The references of a present commit go to present records. -/
theorem ClosedGraph.withReferences (h : ClosedGraph graph) {commit : CommitEvidence}
    (hcommit : commit.id ∈ graph.nodes) :
    ClosedGraph (attachCommitReferences hash commit graph) := by
  have hends : ∀ edge ∈ (commitReferenceEdges hash commit).filter
      (fun edge => graph.nodes.contains edge.targetId),
      edge.sourceId ∈ graph.nodes ∧ edge.targetId ∈ graph.nodes := by
    intro edge hedge
    obtain ⟨hmem, htarget⟩ := List.mem_filter.mp hedge
    rw [reference_sourceId hmem]
    exact ⟨hcommit, ExtTreeMap.contains_iff_mem.mp htarget⟩
  have hattached : attachCommitReferences hash commit graph = ⟨graph.nodes, insertAll
      EvidenceEdge.id graph.edges ((commitReferenceEdges hash commit).filter
        (fun edge => graph.nodes.contains edge.targetId))⟩ :=
    congrArg (Graph.mk graph.nodes) edges_attachCommitReferences
  rw [hattached]
  exact h.withEdges hends

/-- **Attaching a target** keeps a graph closed, and the target is in it. -/
theorem closedGraph_attachTarget (h : ClosedGraph graph) (evidence : ResolvedTarget) :
    ClosedGraph (attachTarget hash timestamp evidence graph).2 ∧
      (attachTarget hash timestamp evidence graph).1 ∈
        (attachTarget hash timestamp evidence graph).2.nodes := by
  cases evidence with
  | commit commit =>
    -- a record that is there keeps its place: `or_insert`
    let nodes : StringMap EvidenceNode :=
      insertNewAll EvidenceNode.id graph.nodes [commitNode timestamp commit]
    have hmem : commit.id ∈ nodes :=
      mem_insertNewAll.mpr (Or.inr ⟨_, List.mem_singleton_self _, rfl⟩)
    have hnodes : ClosedGraph ⟨nodes, graph.edges⟩ :=
      h.withNodes h.nodes_keyed.insertNewAll (fun k hk => mem_insertNewAll.mpr (Or.inl hk))
    exact ⟨hnodes.withReferences hmem, hmem⟩
  | lines path startLine endLine revision introducedBy changedBy =>
    let codeId := codeTargetId hash path startLine endLine revision
    let origin := codeTargetOrigin path startLine endLine revision
    let code : EvidenceNode := ⟨codeId, .codeTarget, .current, none, none, origin⟩
    let attributed := introducedBy.map (attributedNode ·.commitId)
    let nodes : StringMap EvidenceNode :=
      insertNewAll EvidenceNode.id (insertAll EvidenceNode.id graph.nodes [code]) attributed
    have hcode : codeId ∈ nodes :=
      mem_insertNewAll.mpr (Or.inl (mem_insertAll.mpr (Or.inr ⟨code, List.mem_singleton_self _, rfl⟩)))
    have hnodes : ClosedGraph ⟨nodes, graph.edges⟩ := by
      refine h.withNodes h.nodes_keyed.insertAll.insertNewAll (fun k hk => ?_)
      exact mem_insertNewAll.mpr (Or.inl (mem_insertAll.mpr (Or.inl hk)))
    -- the new edges lead from the code to the commits, which are attached before them
    have hends : ∀ edge ∈ introducedBy.map (fun attribution =>
        evidenceEdge hash .introducedBy codeId attribution.commitId origin),
        edge.sourceId ∈ nodes ∧ edge.targetId ∈ nodes := by
      intro edge hedge
      obtain ⟨attribution, hmem, rfl⟩ := List.mem_map.mp hedge
      exact ⟨hcode, mem_insertNewAll.mpr (Or.inr ⟨_, List.mem_map_of_mem hmem, rfl⟩)⟩
    unfold attachTarget
    dsimp only
    rw [foldl_attachAttribution]
    exact ⟨hnodes.withEdges hends, hcode⟩

/-- Nodes only join when a target is attached. -/
theorem mem_nodes_attachTarget {evidence : ResolvedTarget} {k : String} (hk : k ∈ graph.nodes) :
    k ∈ (attachTarget hash timestamp evidence graph).2.nodes := by
  cases evidence with
  | commit commit => exact ExtTreeMap.mem_insertIfNew.mpr (Or.inr hk)
  | lines path startLine endLine revision introducedBy changedBy =>
    unfold attachTarget
    dsimp only
    rw [foldl_attachAttribution]
    exact mem_insertNewAll.mpr (Or.inl (ExtTreeMap.mem_insert.mpr (Or.inr hk)))

end Graphs

section Requests

variable {hash : String → String} {timestamp : Int → Option String} {slice : GraphSlice}

/-- **The request** for a slice without loose ends is well formed. -/
theorem wellFormed_proofRequest {full : GraphSlice} {seedIds : List String}
    (hslice : ClosureSlice full seedIds slice) (target : String) (evidence : ResolvedTarget) :
    Kernel.WellFormed (proofRequest hash timestamp target evidence slice) := by
  obtain ⟨hgraph, htarget⟩ := @closedGraph_attachTarget hash timestamp _
    (closedGraph_ofSlice hslice.edges_closed) evidence
  let request := proofRequest hash timestamp target evidence slice
  -- the request lists the values of the maps, which are keyed by identifier
  have hknown : ∀ k ∈ (attachTarget hash timestamp evidence (Graph.ofSlice slice)).2.nodes,
      Kernel.Known request k := by
    intro k hk
    obtain ⟨node, hnode, hid⟩ := hgraph.nodes_keyed.mem_iff.mp hk
    exact ⟨node, hnode, hid⟩
  constructor
  case version => rfl
  case anchors_ne => exact List.cons_ne_nil _ _
  case anchors_valid =>
    show ∀ kind ∈ [NodeKind.decision, .workItem], Kernel.validAnchorKind kind = true
    decide
  case nodes_nodup =>
    exact List.pairwise_map.mpr (pairwise_key_ne hgraph.nodes_keyed.values_pairwise)
  case edges_nodup =>
    exact List.pairwise_map.mpr (pairwise_key_ne hgraph.edges_keyed.values_pairwise)
  case target_known => exact hknown _ htarget
  case edges_known =>
    intro edge hedge
    obtain ⟨k, hk⟩ := mem_values.mp hedge
    exact ⟨hknown _ (hgraph.ends k edge hk).1, hknown _ (hgraph.ends k edge hk).2⟩
  case conflicts_known =>
    intro conflict hconflict
    obtain ⟨hleft, hright⟩ := hslice.conflicts_closed conflict hconflict
    exact ⟨hknown _ (mem_nodes_attachTarget (mem_indexBy.mpr hleft)),
      hknown _ (mem_nodes_attachTarget (mem_indexBy.mpr hright))⟩

/-- **Proof slices are reachable closures.** Over the current snapshot of every database that the
    store reaches, a proof slice loads exactly when the closure of its seeds is within the limits,
    and then is that closure's part of the snapshot.  The kernel answers the request that `why`
    builds from it neither with a missing record nor as invalid. -/
theorem loadCurrentProofSlice_closure {db : Database} (hdb : Store.Reachable db) {id : String}
    (hid : db.current = some id) (seedIds : List String) (limits : SliceLimits) :
    ((∃ slice, loadCurrentProofSlice db seedIds limits = .ok slice) ↔
      ClosureFits (snapshotSlice db id) seedIds limits) ∧
    ∀ slice, loadCurrentProofSlice db seedIds limits = .ok slice →
      ∃ rows, slice = some rows ∧ ClosureSlice (snapshotSlice db id) seedIds rows ∧
        ∀ hash timestamp target evidence failure,
          Kernel.validate (proofRequest hash timestamp target evidence rows) = .error failure →
          failure.1 ≠ .missingRecord ∧ failure.1 ≠ .invalidRequest := by
  refine ⟨loadsWithin_iff hdb.valid hid, fun slice hload => ?_⟩
  obtain ⟨rows, rfl⟩ := exists_of_load hid hload
  have hslice := closureSlice_of_load hdb.valid hid hload
  refine ⟨rows, rfl, hslice, fun hash timestamp target evidence failure hfail => ?_⟩
  have hcode := (wellFormed_proofRequest hslice target evidence).code_of_error hfail
  rw [hcode]
  exact ⟨by decide, by decide⟩

/-- The slice of the commit that follows a superseded decision. -/
theorem loadCurrentProofSlice_closure_decided : ∃ db id rows,
    loadCurrentProofSlice db ["c0ffee"] proofSliceLimits = .ok (some rows) ∧
      ClosureFits (snapshotSlice db id) ["c0ffee"] proofSliceLimits ∧
      ClosureSlice (snapshotSlice db id) ["c0ffee"] rows := by
  obtain ⟨db, hdb, hload, -⟩ := @loads_decidedSlice supersededDecision (by decide)
  obtain ⟨id, hid, -⟩ := loadCurrentProofSlice_eq_ok.mp hload
  obtain ⟨hfits, hrows⟩ := loadCurrentProofSlice_closure hdb hid ["c0ffee"] proofSliceLimits
  obtain ⟨rows, heq, hclosure, -⟩ := hrows _ hload
  rw [heq] at hload
  exact ⟨db, id, rows, hload, hfits.mp ⟨_, hload⟩, hclosure⟩

end Requests

end Rationale.Engine
