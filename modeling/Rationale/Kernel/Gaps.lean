import Rationale.Kernel.SubRequest

namespace Rationale.Kernel

open Std Relation Rationale.Library

/-!
# The gap of an incomplete proof

* `Frontier.unique` — the frontier's nodes are unique, whatever parallel edges tie;
* `Frontier.out_neighbours` — nothing leads on from the frontier but to its own path;
* `NamesFrontier` — what a gap says about the frontier;
* `evaluate_incomplete_gap` — the single gap of every incomplete proof names the true frontier.
-/

/-- What is missing at a frontier node of each kind, and the kind of record that would supply it. -/
def missingAfter : NodeKind → GapCode × Option NodeKind
  | .codeTarget => (.targetToChange, some .change)
  | .change => (.changeToReview, some .review)
  | .review => (.changeToWorkItem, some .workItem)
  | .workItem => (.workItemToDecision, some .decision)
  | .decision => (.decisionToVerification, some .verification)
  | .verification => (.noCurrentAnchor, none)

theorem gapFor_missingAfter (node : EvidenceNode) :
    ((gapFor node).code, (gapFor node).toKind) = missingAfter node.kind := by
  cases hkind : node.kind <;> simp [gapFor, missingAfter, hkind]

section Frontier

variable {request : KernelRequest} {nodeIds nodeIds' : List String}
  {edges edges' : List EvidenceEdge}

/-- The frontier's nodes do not depend on which of several parallel edges it takes. -/
theorem Frontier.unique (h : Frontier request nodeIds edges)
    (h' : Frontier request nodeIds' edges') : nodeIds = nodeIds' := by
  have hlen : edges'.length = edges.length :=
    Nat.le_antisymm (h.deepest _ _ h'.path).1 (h'.deepest _ _ h.path).1
  have hle := (h.deepest _ _ h'.path).2 hlen
  have hge := (h'.deepest _ _ h.path).2 hlen.symm
  exact LawfulEqCmp.eq_of_compare (OrientedCmp.isLE_antisymm hle hge)

/-- Every active out-neighbour of the frontier lies on its path: else the path could be extended. -/
theorem Frontier.out_neighbours (h : Frontier request nodeIds edges) {edge : EvidenceEdge}
    (hedge : ActiveEdge request edge) (hlast : nodeIds.getLast? = some edge.sourceId) :
    edge.targetId ∈ nodeIds := by
  by_contra hfresh
  have hlonger := (h.deepest _ _ (h.path.snoc hlast hedge hfresh)).1
  rw [List.length_append, List.length_singleton] at hlonger
  omega

/-- The frontier is an active reachable record, or the target. -/
theorem Frontier.active_or_target (h : Frontier request nodeIds edges) {id : String}
    (hlast : nodeIds.getLast? = some id) :
    Reachable request id ∧ (Active request id ∨ id = request.goal.targetId) := by
  have hreach : Reachable request id := reachable_iff_activePath.mpr ⟨_, _, h.path, hlast⟩
  refine ⟨hreach, ?_⟩
  by_cases htarget : id = request.goal.targetId
  · exact Or.inr htarget
  · exact Or.inl (hreach.active_of_ne htarget)

/-- The frontier stays at the target exactly when no active edge leads on from there. -/
theorem Frontier.eq_target_iff (h : Frontier request nodeIds edges) {id : String}
    (hlast : nodeIds.getLast? = some id) :
    id = request.goal.targetId ↔ ¬ LeadsOn request := by
  rw [← leadsOn_iff, ← h.edges_ne_nil_iff, not_not]
  constructor
  · rintro rfl
    by_contra hne
    exact h.path.getLast?_ne_root hne hlast
  · rintro rfl
    rw [h.path.nodes_of_nil, List.getLast?_singleton] at hlast
    exact (Option.some.inj hlast).symm

end Frontier

/-- **What a gap says**: it is the gap of the last node of the deepest active path. -/
structure NamesFrontier (request : KernelRequest) (nodeIds : List String)
    (edges : List EvidenceEdge) (node : EvidenceNode) (gap : Gap) : Prop where
  frontier : Frontier request nodeIds edges
  /-- Equally deep paths with the least nodes have these nodes. -/
  unique : ∀ nodeIds' edges', Frontier request nodeIds' edges' → nodeIds' = nodeIds
  mem : node ∈ request.nodes
  last : nodeIds.getLast? = some node.id
  gap_eq : gap = gapFor node
  fromNodeId : gap.fromNodeId = some node.id
  kind : (gap.code, gap.toKind) = missingAfter node.kind
  reachable : Reachable request node.id
  active_or_target : ActiveNode request node ∨ node.id = request.goal.targetId
  /-- The target is named exactly when it is inactive or isolated. -/
  target_iff : node.id = request.goal.targetId ↔ ¬ LeadsOn request
  out_neighbours : ∀ edge, ActiveEdge request edge → edge.sourceId = node.id →
    edge.targetId ∈ nodeIds

/-- The gap of a frontier's last node. -/
theorem namesFrontier_gapFor {request : KernelRequest} (hv : Validated request)
    {nodeIds : List String} {edges : List EvidenceEdge} {node : EvidenceNode}
    (hfrontier : Frontier request nodeIds edges) (hmem : node ∈ request.nodes)
    (hlast : nodeIds.getLast? = some node.id) :
    NamesFrontier request nodeIds edges node (gapFor node) where
  frontier := hfrontier
  unique _ _ h := h.unique hfrontier
  mem := hmem
  last := hlast
  gap_eq := rfl
  fromNodeId := gapFor_fromNodeId node
  kind := gapFor_missingAfter node
  reachable := (hfrontier.active_or_target hlast).1
  active_or_target := by
    rcases (hfrontier.active_or_target hlast).2 with ⟨node', hactive, hid⟩ | htarget
    · rw [hv.node_eq hmem hactive.mem hid.symm]
      exact Or.inl hactive
    · exact Or.inr htarget
  target_iff := hfrontier.eq_target_iff hlast
  out_neighbours := by
    intro edge hedge hsource
    exact hfrontier.out_neighbours hedge (hsource ▸ hlast)

/-- **An incomplete proof names the true frontier.** -/
theorem evaluate_incomplete_gap {request : KernelRequest} {version : Int}
    {requestId snapshotId : String} {proof : ProofResult}
    (h : evaluate request = some (.proof version requestId snapshotId proof))
    (hverdict : proof.verdict = .partialProof ∨ proof.verdict = .notEstablished) :
    ∃ gap nodeIds edges node, proof.gaps = [gap] ∧
      NamesFrontier request nodeIds edges node gap := by
  obtain ⟨hv, -⟩ := evaluate_eq_proof h
  have hspec := verdictSpec_of_evaluate h
  have hno : ¬ ∃ conflict, MaterialConflict request conflict := by
    intro hconflict
    rw [hspec.conflicted_iff.mpr hconflict] at hverdict
    exact hverdict.elim (nomatch ·) (nomatch ·)
  have hnone : ¬ ∃ id, Reachable request id ∧ Anchor request id := by
    intro hanchor
    rw [(hspec.established_iff hno).mpr hanchor] at hverdict
    exact hverdict.elim (nomatch ·) (nomatch ·)
  obtain ⟨-, -, nodeIds, edges, hfrontier, node, hmem, hlast, hgaps⟩ := hspec.incomplete hno hnone
  exact ⟨gapFor node, nodeIds, edges, node, hgaps, namesFrontier_gapFor hv hfrontier hmem hlast⟩

/-- A change under two reviews, one of which resolves a work item of the past. -/
def partialRequest : KernelRequest :=
  { sampleRequest with
    nodes :=
      [⟨"change", .change, .current, none, none, sampleRequest.sampleOrigin⟩,
        ⟨"left", .review, .current, none, none, sampleRequest.sampleOrigin⟩,
        ⟨"right", .review, .current, none, none, sampleRequest.sampleOrigin⟩,
        ⟨"item", .workItem, .historical, none, none, sampleRequest.sampleOrigin⟩]
    edges :=
      [⟨"e1", .includedInPr, "change", "right", .current, sampleRequest.sampleOrigin⟩,
        ⟨"e2", .includedInPr, "change", "left", .current, sampleRequest.sampleOrigin⟩,
        ⟨"e3", .documents, "change", "left", .current, sampleRequest.sampleOrigin⟩,
        ⟨"e4", .resolvesIssue, "left", "item", .current, sampleRequest.sampleOrigin⟩] }

/-- Of two reviews the first in order is the frontier, over whichever parallel edge. -/
theorem evaluate_incomplete_gap_sample :
    ∃ proof gap nodeIds edges node,
      evaluate partialRequest = some (.proof 1 "query" "snapshot" proof) ∧ proof.gaps = [gap] ∧
        NamesFrontier partialRequest nodeIds edges node gap ∧ node.id = "left" := by
  let gap : Gap := ⟨.changeToWorkItem, some "left", some .workItem⟩
  have h : evaluate partialRequest =
      some (.proof 1 "query" "snapshot" ⟨.partialProof, [], [gap], []⟩) := by
    decide
  obtain ⟨gap', nodeIds, edges, node, hgaps, hnames⟩ := evaluate_incomplete_gap h (Or.inl rfl)
  refine ⟨_, gap', nodeIds, edges, node, h, hgaps, hnames, ?_⟩
  obtain rfl : gap = gap' := List.singleton_inj.mp hgaps
  exact (Option.some.inj hnames.fromNodeId).symm

end Rationale.Kernel
