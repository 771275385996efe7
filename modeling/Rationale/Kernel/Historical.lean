import Rationale.Kernel.Gaps
import Rationale.Kernel.SameGraph

namespace Rationale.Kernel

open Std Relation Rationale.Library

/-!
# Historical evidence

Two laws over pairs of requests, both by showing that their active graphs are the same.

* `without` — a request without some records, and without whatever mentions them;
* `evaluate_without_historical` — historical records and edges have no influence on an answer;
* `superseding`, `retiring` — a record is superseded, or made historical;
* `evaluate_superseding_eq_retiring` — the two have one proof.
-/

/-! ### Removing historical evidence -/

/-- A request without the records of some identifiers, without the edges and conflicts that mention
    them, and without some further edges. -/
def without (request : KernelRequest) (gone : String → Bool) (dropped : EvidenceEdge → Bool) :
    KernelRequest :=
  { request with
    nodes := request.nodes.filter fun node => !gone node.id
    edges := request.edges.filter fun edge =>
      !(gone edge.sourceId || gone edge.targetId || dropped edge)
    conflicts := request.conflicts.filter fun conflict =>
      !(gone conflict.leftNodeId || gone conflict.rightNodeId) }

/-- What is removed is historical, and the target stays. -/
structure OnlyHistorical (request : KernelRequest) (gone : String → Bool)
    (dropped : EvidenceEdge → Bool) : Prop where
  target : gone request.goal.targetId = false
  nodes : ∀ node ∈ request.nodes, gone node.id = true → node.status = .historical
  edges : ∀ edge ∈ request.edges, dropped edge = true → edge.status = .historical

section Without

variable {request : KernelRequest} {gone : String → Bool} {dropped : EvidenceEdge → Bool}

theorem mem_nodes_without {node : EvidenceNode} :
    node ∈ (without request gone dropped).nodes ↔ node ∈ request.nodes ∧ gone node.id = false := by
  simp [without]

theorem mem_edges_without {edge : EvidenceEdge} :
    edge ∈ (without request gone dropped).edges ↔ edge ∈ request.edges ∧
      (gone edge.sourceId = false ∧ gone edge.targetId = false) ∧ dropped edge = false := by
  simp [without]

theorem mem_conflicts_without {conflict : Conflict} :
    conflict ∈ (without request gone dropped).conflicts ↔ conflict ∈ request.conflicts ∧
      gone conflict.leftNodeId = false ∧ gone conflict.rightNodeId = false := by
  simp [without]

theorem known_without {id : String} (h : Known request id) (hid : gone id = false) :
    Known (without request gone dropped) id := by
  obtain ⟨node, hmem, rfl⟩ := h
  exact ⟨node, mem_nodes_without.mpr ⟨hmem, hid⟩, rfl⟩

/-- A request stays valid when evidence other than its target is removed. -/
theorem Validated.without (hv : Validated request) (htarget : gone request.goal.targetId = false) :
    Validated (without request gone dropped) where
  version := hv.version
  node_limit := (List.length_filter_le _ _).trans hv.node_limit
  edge_limit := (List.length_filter_le _ _).trans hv.edge_limit
  anchors_ne := hv.anchors_ne
  anchors_valid := hv.anchors_valid
  nodes_nodup := hv.nodes_nodup.sublist (List.filter_sublist.map _)
  edges_nodup := hv.edges_nodup.sublist (List.filter_sublist.map _)
  target_known := known_without hv.target_known htarget
  edges_known := by
    intro edge hedge
    obtain ⟨hmem, ⟨hsource, htarget⟩, -⟩ := mem_edges_without.mp hedge
    exact ⟨known_without (hv.edges_known edge hmem).1 hsource,
      known_without (hv.edges_known edge hmem).2 htarget⟩
  conflicts_known := by
    intro conflict hconflict
    obtain ⟨hmem, hleft, hright⟩ := mem_conflicts_without.mp hconflict
    exact ⟨known_without (hv.conflicts_known conflict hmem).1 hleft,
      known_without (hv.conflicts_known conflict hmem).2 hright⟩

variable (h : OnlyHistorical request gone dropped)

include h

/-- Current records stay. -/
theorem OnlyHistorical.stays {node : EvidenceNode} (hmem : node ∈ request.nodes)
    (hcurrent : node.status = .current) : gone node.id = false := by
  cases hgone : gone node.id with
  | false => rfl
  | true => rw [h.nodes node hmem hgone] at hcurrent; exact nomatch hcurrent

theorem OnlyHistorical.stays_edge {edge : EvidenceEdge} (hmem : edge ∈ request.edges)
    (hcurrent : edge.status = .current) : dropped edge = false := by
  cases hdropped : dropped edge with
  | false => rfl
  | true => rw [h.edges edge hmem hdropped] at hcurrent; exact nomatch hcurrent

theorem OnlyHistorical.stays_active {id : String} (hactive : Active request id) :
    gone id = false := by
  obtain ⟨node, hnode, rfl⟩ := hactive
  exact h.stays hnode.mem hnode.current

/-- Among the records that stay, supersession is the same: a historical source supersedes nothing. -/
theorem OnlyHistorical.superseded_iff {id : String} (hid : gone id = false) :
    Superseded (without request gone dropped) id ↔ Superseded request id := by
  constructor
  · rintro ⟨edge, hedge, hkind, hstatus, htarget, source, hsource, hsourceId, hcurrent⟩
    exact ⟨edge, (mem_edges_without.mp hedge).1, hkind, hstatus, htarget, source,
      (mem_nodes_without.mp hsource).1, hsourceId, hcurrent⟩
  · rintro ⟨edge, hedge, hkind, hstatus, rfl, source, hsource, hsourceId, hcurrent⟩
    have hstays := h.stays hsource hcurrent
    refine ⟨edge, mem_edges_without.mpr ⟨hedge, ⟨?_, hid⟩, h.stays_edge hedge hstatus⟩, hkind,
      hstatus, rfl, source, mem_nodes_without.mpr ⟨hsource, hstays⟩, hsourceId, hcurrent⟩
    rwa [← hsourceId]

theorem OnlyHistorical.activeNode_iff (node : EvidenceNode) :
    ActiveNode (without request gone dropped) node ↔ ActiveNode request node := by
  constructor
  · rintro ⟨hmem, hcurrent, hkept⟩
    obtain ⟨hmem', hid⟩ := mem_nodes_without.mp hmem
    exact ⟨hmem', hcurrent, fun hsuperseded => hkept ((h.superseded_iff hid).mpr hsuperseded)⟩
  · rintro ⟨hmem, hcurrent, hkept⟩
    have hid := h.stays hmem hcurrent
    exact ⟨mem_nodes_without.mpr ⟨hmem, hid⟩, hcurrent,
      fun hsuperseded => hkept ((h.superseded_iff hid).mp hsuperseded)⟩

theorem OnlyHistorical.active_iff {id : String} :
    Active (without request gone dropped) id ↔ Active request id :=
  exists_congr (fun node => and_congr_left (fun _ => h.activeNode_iff node))

theorem OnlyHistorical.activeEdge_iff (edge : EvidenceEdge) :
    ActiveEdge (without request gone dropped) edge ↔ ActiveEdge request edge := by
  constructor
  · rintro ⟨hmem, hcurrent, hkind, hsource, htarget⟩
    exact ⟨(mem_edges_without.mp hmem).1, hcurrent, hkind, h.active_iff.mp hsource,
      h.active_iff.mp htarget⟩
  · rintro ⟨hmem, hcurrent, hkind, hsource, htarget⟩
    refine ⟨mem_edges_without.mpr ⟨hmem, ⟨?_, ?_⟩, h.stays_edge hmem hcurrent⟩, hcurrent, hkind,
      h.active_iff.mpr hsource, h.active_iff.mpr htarget⟩
    · exact h.stays_active hsource
    · exact h.stays_active htarget

variable (hv : Validated request)

include hv

/-- Removing evidence leaves a valid request. -/
theorem OnlyHistorical.validated : Validated (without request gone dropped) :=
  hv.without h.target

/-- Historical evidence is no part of the active graph. -/
theorem OnlyHistorical.sameGraph : SameGraph (without request gone dropped) request where
  goal := rfl
  activeNode := h.activeNode_iff
  activeEdge := h.activeEdge_iff
  conflict := by
    intro conflict hleft hright
    rw [mem_conflicts_without]
    exact and_iff_left ⟨h.stays_active (h.active_iff.mp hleft),
      h.stays_active (h.active_iff.mp hright)⟩
  target_kind := by
    intro node hnode node' hnode' hid hid'
    rw [hv.node_eq (mem_nodes_without.mp hnode).1 hnode' (hid.trans hid'.symm)]

end Without

/-- **Historical evidence has no influence.** A request that gets a proof gets the same one without
    historical records, whatever mentions them, and historical edges; and as long as the larger
    request is valid, adding such evidence changes no response. -/
theorem evaluate_without_historical {request : KernelRequest} {gone : String → Bool}
    {dropped : EvidenceEdge → Bool} (h : OnlyHistorical request gone dropped) :
    (∀ version requestId snapshotId proof,
      evaluate request = some (.proof version requestId snapshotId proof) →
      evaluate (without request gone dropped) =
        some (.proof version requestId snapshotId proof)) ∧
    ∀ nodes, validate request = .ok nodes →
      evaluate request = evaluate (without request gone dropped) := by
  have hsame : Validated request →
      evaluate (without request gone dropped) = evaluate request := fun hv =>
    evaluate_sameGraph (h.sameGraph hv) (h.validated hv) hv ⟨rfl, rfl⟩
  constructor
  · intro version requestId snapshotId proof hproof
    rw [hsame (evaluate_eq_proof hproof).1, hproof]
  · intro nodes hvalid
    exact (hsame (validate_eq_ok_iff.mp hvalid).1).symm

/-- Without its historical work item a change lacks the same review. -/
theorem evaluate_without_historical_sample :
    evaluate (without partialRequest (· == "item") fun _ => false) = evaluate partialRequest := by
  have h : OnlyHistorical partialRequest (· == "item") fun _ => false :=
    ⟨by decide, by decide, by decide⟩
  have hvalid : validate partialRequest = .ok (nodeMap partialRequest.nodes) := by rfl
  exact ((evaluate_without_historical h).2 _ hvalid).symm

/-! ### Superseding a record or making it historical -/

/-- A request with one more edge. -/
def superseding (request : KernelRequest) (edge : EvidenceEdge) : KernelRequest :=
  { request with edges := request.edges ++ [edge] }

/-- A record made historical, if it has the identifier. -/
def retire (id : String) (node : EvidenceNode) : EvidenceNode :=
  if node.id = id then { node with status := .historical } else node

/-- A request with one record made historical. -/
def retiring (request : KernelRequest) (id : String) : KernelRequest :=
  { request with nodes := request.nodes.map (retire id) }

/-- A new current edge by which a current record supersedes one that supersedes nothing itself. -/
structure Supersession (request : KernelRequest) (edge : EvidenceEdge) : Prop where
  fresh : ∀ other ∈ request.edges, other.id ≠ edge.id
  limit : request.edges.length + 1 ≤ maxEdges
  kind : edge.kind = .supersedes
  status : edge.status = .current
  source : ∃ source ∈ request.nodes, source.id = edge.sourceId ∧ source.status = .current
  target : Known request edge.targetId
  silent : ∀ other ∈ request.edges, other.kind = .supersedes → other.status = .current →
    other.sourceId ≠ edge.targetId

@[simp] theorem retire_id (id : String) (node : EvidenceNode) : (retire id node).id = node.id := by
  unfold retire
  split <;> rfl

@[simp] theorem retire_kind (id : String) (node : EvidenceNode) :
    (retire id node).kind = node.kind := by
  unfold retire
  split <;> rfl

theorem retire_status (id : String) (node : EvidenceNode) :
    (retire id node).status = .current ↔ node.status = .current ∧ node.id ≠ id := by
  unfold retire
  by_cases hid : node.id = id <;> simp [hid]

theorem retire_of_ne {id : String} {node : EvidenceNode} (h : node.id ≠ id) :
    retire id node = node := if_neg h

section Supersession

variable {request : KernelRequest} {edge : EvidenceEdge}

theorem known_retiring {id id' : String} : Known (retiring request id) id' ↔ Known request id' := by
  constructor
  · rintro ⟨node, hmem, rfl⟩
    obtain ⟨node', hmem', rfl⟩ := List.mem_map.mp hmem
    exact ⟨node', hmem', (retire_id id node').symm⟩
  · rintro ⟨node, hmem, rfl⟩
    exact ⟨retire id node, List.mem_map_of_mem hmem, retire_id id node⟩

variable (h : Supersession request edge)

include h

/-- The new edge supersedes its target and nothing else. -/
theorem Supersession.superseded_superseding {id : String} :
    Superseded (superseding request edge) id ↔ Superseded request id ∨ id = edge.targetId := by
  constructor
  · rintro ⟨other, hother, hkind, hstatus, rfl, source, hsource, hid, hcurrent⟩
    rcases List.mem_append.mp hother with hother | hother
    · exact Or.inl ⟨other, hother, hkind, hstatus, rfl, source, hsource, hid, hcurrent⟩
    · rw [List.mem_singleton.mp hother]
      exact Or.inr rfl
  · rintro (⟨other, hother, hrest⟩ | rfl)
    · exact ⟨other, List.mem_append_left _ hother, hrest⟩
    · exact ⟨edge, List.mem_append_right _ (List.mem_singleton_self edge), h.kind, h.status, rfl,
        h.source⟩

/-- The retired record supersedes nothing, so nothing else changes. -/
theorem Supersession.superseded_retiring {id : String} :
    Superseded (retiring request edge.targetId) id ↔ Superseded request id := by
  constructor
  · rintro ⟨other, hother, hkind, hstatus, htarget, source, hsource, hid, hcurrent⟩
    obtain ⟨source', hsource', rfl⟩ := List.mem_map.mp hsource
    rw [retire_id] at hid
    exact ⟨other, hother, hkind, hstatus, htarget, source', hsource', hid,
      ((retire_status _ _).mp hcurrent).1⟩
  · rintro ⟨other, hother, hkind, hstatus, htarget, source, hsource, hid, hcurrent⟩
    have hne : source.id ≠ edge.targetId := hid ▸ h.silent other hother hkind hstatus
    exact ⟨other, hother, hkind, hstatus, htarget, retire edge.targetId source,
      List.mem_map_of_mem hsource, (retire_id _ _).trans hid, (retire_status _ _).mpr ⟨hcurrent, hne⟩⟩

theorem Supersession.activeNode_superseding (node : EvidenceNode) :
    ActiveNode (superseding request edge) node ↔
      ActiveNode request node ∧ node.id ≠ edge.targetId := by
  constructor
  · rintro ⟨hmem, hcurrent, hkept⟩
    rw [h.superseded_superseding, not_or] at hkept
    exact ⟨⟨hmem, hcurrent, hkept.1⟩, hkept.2⟩
  · rintro ⟨⟨hmem, hcurrent, hkept⟩, hne⟩
    refine ⟨hmem, hcurrent, ?_⟩
    rw [h.superseded_superseding, not_or]
    exact ⟨hkept, hne⟩

theorem Supersession.activeNode_retiring (node : EvidenceNode) :
    ActiveNode (retiring request edge.targetId) node ↔
      ActiveNode request node ∧ node.id ≠ edge.targetId := by
  constructor
  · rintro ⟨hmem, hcurrent, hkept⟩
    obtain ⟨node', hmem', rfl⟩ := List.mem_map.mp hmem
    obtain ⟨hcurrent', hne⟩ := (retire_status _ _).mp hcurrent
    rw [retire_of_ne hne] at hkept ⊢
    exact ⟨⟨hmem', hcurrent', fun hs => hkept (h.superseded_retiring.mpr hs)⟩, hne⟩
  · rintro ⟨⟨hmem, hcurrent, hkept⟩, hne⟩
    refine ⟨?_, hcurrent, fun hs => hkept (h.superseded_retiring.mp hs)⟩
    have hmem' : retire edge.targetId node ∈ (retiring request edge.targetId).nodes :=
      List.mem_map_of_mem hmem
    rwa [retire_of_ne hne] at hmem'

/-- Both requests have one set of active records. -/
theorem Supersession.activeNode_iff (node : EvidenceNode) :
    ActiveNode (superseding request edge) node ↔
      ActiveNode (retiring request edge.targetId) node := by
  rw [h.activeNode_superseding, h.activeNode_retiring]

theorem Supersession.active_iff {id : String} :
    Active (superseding request edge) id ↔ Active (retiring request edge.targetId) id :=
  exists_congr (fun node => and_congr_left (fun _ => h.activeNode_iff node))

/-- The new edge is no active edge. -/
theorem Supersession.activeEdge_iff (other : EvidenceEdge) :
    ActiveEdge (superseding request edge) other ↔
      ActiveEdge (retiring request edge.targetId) other := by
  constructor
  · rintro ⟨hmem, hcurrent, hkind, hsource, htarget⟩
    rcases List.mem_append.mp hmem with hmem | hmem
    · exact ⟨hmem, hcurrent, hkind, h.active_iff.mp hsource, h.active_iff.mp htarget⟩
    · rw [List.mem_singleton.mp hmem] at hkind
      exact absurd h.kind hkind
  · rintro ⟨hmem, hcurrent, hkind, hsource, htarget⟩
    exact ⟨List.mem_append_left _ hmem, hcurrent, hkind, h.active_iff.mpr hsource,
      h.active_iff.mpr htarget⟩

theorem Supersession.activeEdge_of_superseding {other : EvidenceEdge}
    (hactive : ActiveEdge (superseding request edge) other) : ActiveEdge request other := by
  have hends : ∀ id, Active (superseding request edge) id → Active request id := by
    rintro id ⟨node, hnode, rfl⟩
    exact ⟨node, ((h.activeNode_superseding node).mp hnode).1, rfl⟩
  obtain ⟨hmem, hcurrent, hkind, hsource, htarget⟩ := hactive
  rcases List.mem_append.mp hmem with hmem | hmem
  · exact ⟨hmem, hcurrent, hkind, hends _ hsource, hends _ htarget⟩
  · rw [List.mem_singleton.mp hmem] at hkind
    exact absurd h.kind hkind

variable (hv : Validated request)

include hv

theorem Supersession.validated_superseding : Validated (superseding request edge) where
  version := hv.version
  node_limit := hv.node_limit
  edge_limit := by
    show (request.edges ++ [edge]).length ≤ maxEdges
    rw [List.length_append]
    exact h.limit
  anchors_ne := hv.anchors_ne
  anchors_valid := hv.anchors_valid
  nodes_nodup := hv.nodes_nodup
  edges_nodup := by
    show ((request.edges ++ [edge]).map (·.id)).Nodup
    rw [List.map_append]
    refine List.nodup_append.mpr ⟨hv.edges_nodup, List.nodup_singleton _, ?_⟩
    intro id hid id' hid' heq
    obtain ⟨other, hother, rfl⟩ := List.mem_map.mp hid
    exact h.fresh other hother (heq.trans (List.mem_singleton.mp hid'))
  target_known := hv.target_known
  edges_known := by
    intro other hother
    rcases List.mem_append.mp hother with hother | hother
    · exact hv.edges_known other hother
    · rw [List.mem_singleton.mp hother]
      obtain ⟨source, hsource, hid, -⟩ := h.source
      exact ⟨⟨source, hsource, hid⟩, h.target⟩
  conflicts_known := hv.conflicts_known

omit h in
theorem validated_retiring (id : String) : Validated (retiring request id) where
  version := hv.version
  node_limit := by
    show (request.nodes.map (retire id)).length ≤ maxNodes
    rw [List.length_map]
    exact hv.node_limit
  edge_limit := hv.edge_limit
  anchors_ne := hv.anchors_ne
  anchors_valid := hv.anchors_valid
  nodes_nodup := by
    show ((request.nodes.map (retire id)).map (·.id)).Nodup
    rw [List.map_map]
    exact (congrArg List.Nodup (List.map_congr_left fun node _ => retire_id id node)).mpr
      hv.nodes_nodup
  edges_nodup := hv.edges_nodup
  target_known := known_retiring.mpr hv.target_known
  edges_known edge hedge := (hv.edges_known edge hedge).imp known_retiring.mpr known_retiring.mpr
  conflicts_known conflict hconflict :=
    (hv.conflicts_known conflict hconflict).imp known_retiring.mpr known_retiring.mpr

/-- The superseded and the retired record leave one active graph. -/
theorem Supersession.sameGraph :
    SameGraph (superseding request edge) (retiring request edge.targetId) where
  goal := rfl
  activeNode := h.activeNode_iff
  activeEdge := h.activeEdge_iff
  conflict _ _ _ := Iff.rfl
  target_kind := by
    intro node hnode node' hnode' hid hid'
    obtain ⟨original, hmem, rfl⟩ := List.mem_map.mp hnode'
    rw [retire_id] at hid'
    rw [retire_kind, hv.node_eq hnode hmem (hid.trans hid'.symm)]

end Supersession

/-- **Superseding is retiring.** A current record that supersedes another one has the same effect on
    the proof as the other one being historical. -/
theorem evaluate_superseding_eq_retiring {request : KernelRequest} {edge : EvidenceEdge}
    {version : Int} {requestId snapshotId : String} {proof : ProofResult}
    (hproof : evaluate request = some (.proof version requestId snapshotId proof))
    (h : Supersession request edge) :
    ∃ proof', evaluate (superseding request edge) =
        some (.proof version requestId snapshotId proof') ∧
      evaluate (retiring request edge.targetId) =
        some (.proof version requestId snapshotId proof') := by
  obtain ⟨hv, traversal, ht, -⟩ := evaluate_eq_proof hproof
  have hechoed : evaluate request = some (.proof 1 request.requestId request.snapshotId proof) := by
    rw [evaluate_of_traversal hv ht, Option.map_eq_some_iff] at hproof ⊢
    obtain ⟨proof', hproof', heq⟩ := hproof
    obtain ⟨-, -, -, rfl⟩ := KernelResponse.proof.inj heq
    exact ⟨proof', hproof', rfl⟩
  obtain ⟨rfl, rfl, rfl, -⟩ := KernelResponse.proof.inj (Option.some.inj (hproof.symm.trans hechoed))
  have hvalid := h.validated_superseding hv
  -- superseding a record only takes edges away, so the traversal still finishes
  obtain ⟨traversal', ht'⟩ := exists_traversal_of_subgraph hvalid hv rfl
    (fun _ hactive => h.activeEdge_of_superseding hactive) ⟨traversal, ht⟩
  obtain ⟨proof', hproof', -⟩ := verdictSpec_of_traversal hvalid ht'
  have hsame := evaluate_sameGraph (h.sameGraph hv) hvalid (validated_retiring hv _) ⟨rfl, rfl⟩
  exact ⟨proof', hproof', hsame ▸ hproof'⟩

/-- The change of the sample request supersedes its work item. -/
theorem evaluate_superseding_sample : ∃ proof edge,
    evaluate (superseding sampleRequest edge) = some (.proof 1 "query" "snapshot" proof) ∧
      evaluate (retiring sampleRequest "item") = some (.proof 1 "query" "snapshot" proof) := by
  let edge : EvidenceEdge :=
    ⟨"e5", .supersedes, "change", "item", .current, sampleRequest.sampleOrigin⟩
  have h : Supersession sampleRequest edge :=
    ⟨by decide, by decide, rfl, rfl, by decide, by unfold Known; decide, by decide⟩
  have hproof : evaluate sampleRequest = some (.proof 1 "query" "snapshot" sampleProof) := by
    decide
  obtain ⟨proof, hsuperseding, hretiring⟩ := evaluate_superseding_eq_retiring hproof h
  exact ⟨proof, edge, hsuperseding, hretiring⟩

end Rationale.Kernel
