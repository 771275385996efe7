import Rationale.Kernel.Chains

namespace Rationale.Kernel

open Relation Rationale.Library

/-!
# Requests that are parts of other requests

When a bounded slice of the evidence leads to the same answer as all of it.

* `SubRequest` — a part that is closed under what leads on from its records; the goal's target alone
  may have edges that the part lacks;
* `SameAnswer` — equal verdicts, chains and conflicts;
* `NothingDecisive` — nothing outside the part decides: no record that the part relies on is
  superseded from outside, and nothing is reached over an edge that it lacks;
* `sameAnswer_iff` — the two are equivalent;
* `nothingDecisive_of_closed` — a part that is closed under supersession, and has all edges of the
  target, is enough.
-/

/-- A part of a request. -/
structure SubRequest (slice full : KernelRequest) : Prop where
  goal : slice.goal = full.goal
  nodes : ∀ node ∈ slice.nodes, node ∈ full.nodes
  edges : ∀ edge ∈ slice.edges, edge ∈ full.edges
  conflicts : ∀ conflict ∈ slice.conflicts, conflict ∈ full.conflicts
  /-- Edges that leave its records are in it, except those of the target. -/
  edges_out : ∀ edge ∈ full.edges, Known slice edge.sourceId →
    edge.sourceId ≠ full.goal.targetId → edge ∈ slice.edges
  conflicts_between : ∀ conflict ∈ full.conflicts, Known slice conflict.leftNodeId →
    Known slice conflict.rightNodeId → conflict.leftNodeId ≠ conflict.rightNodeId →
    conflict ∈ slice.conflicts

/-- Two proof results that say the same. -/
structure SameAnswer (proof proof' : ProofResult) : Prop where
  verdict : proof.verdict = proof'.verdict
  proofChains : proof.proofChains = proof'.proofChains
  conflicts : proof.conflicts = proof'.conflicts

/-- An active edge leads from the target to another record. -/
def LeadsOn (request : KernelRequest) : Prop :=
  ∃ edge, ActiveEdge request edge ∧ edge.sourceId = request.goal.targetId ∧
    edge.targetId ≠ request.goal.targetId

/-- **Nothing outside the part decides.** -/
structure NothingDecisive (slice full : KernelRequest) : Prop where
  /-- The records of every conflict of the part still count outside it. -/
  conflicts_kept : ∀ conflict, MaterialConflict slice conflict →
    Reached full conflict.leftNodeId ∧ Reached full conflict.rightNodeId
  /-- The part reaches the records of every conflict. -/
  conflicts_found : ∀ conflict, MaterialConflict full conflict →
    Reachable slice conflict.leftNodeId ∧ Reachable slice conflict.rightNodeId ∧
      (conflict.leftNodeId = conflict.rightNodeId → conflict ∈ slice.conflicts)
  /-- Otherwise no anchor path of the part visits a superseded record … -/
  chains_kept : (¬ ∃ conflict, MaterialConflict slice conflict) →
    ∀ nodeIds edges, AnchorPath slice nodeIds edges → ∀ id ∈ nodeIds, ¬ Superseded full id
  /-- … and none starts with an edge that the part lacks. -/
  chains_found : (¬ ∃ conflict, MaterialConflict slice conflict) →
    ∀ nodeIds edges, AnchorPath full nodeIds edges →
      ∀ edge, edges.head? = some edge → edge ∈ slice.edges
  /-- Otherwise both lead on from the target, or none does. -/
  steps : (¬ ∃ conflict, MaterialConflict slice conflict) →
    (¬ ∃ nodeIds edges, AnchorPath slice nodeIds edges) → (LeadsOn slice ↔ LeadsOn full)

section Requests

variable {request : KernelRequest}

/-- An anchor is reachable when an anchor path leads there. -/
theorem exists_anchorPath_iff :
    (∃ id, Reachable request id ∧ Anchor request id) ↔
      ∃ nodeIds edges, AnchorPath request nodeIds edges := by
  simp only [reachable_iff_activePath]
  constructor
  · rintro ⟨id, ⟨nodeIds, edges, hpath, hlast⟩, hanchor⟩
    exact ⟨nodeIds, edges, hpath, id, hlast, hanchor⟩
  · rintro ⟨nodeIds, edges, hpath, id, hlast, hanchor⟩
    exact ⟨id, ⟨nodeIds, edges, hpath, hlast⟩, hanchor⟩

/-- Something besides the target is reachable exactly when an edge leads on from it. -/
theorem leadsOn_iff :
    (∃ id, id ≠ request.goal.targetId ∧ Reachable request id) ↔ LeadsOn request := by
  constructor
  · rintro ⟨id, hne, hreach⟩
    obtain ⟨nodeIds, edges, hpath, hlast⟩ := reachable_iff_activePath.mp hreach
    cases edges with
    | nil =>
      rw [hpath.nodes_of_nil, List.getLast?_singleton] at hlast
      exact absurd (Option.some.inj hlast).symm hne
    | cons edge edges =>
      -- the first edge leaves the target for the second node
      obtain ⟨hsource, htarget⟩ := hpath.link (i := 0) rfl
      have hfirst := hpath.head?_eq
      rw [List.head?_eq_getElem?, hsource] at hfirst
      have hroot := Option.some.inj hfirst
      refine ⟨edge, hpath.edges_mem edge List.mem_cons_self, hroot, fun heq => ?_⟩
      rw [heq, ← hroot, ← hsource] at htarget
      have hlen := hpath.length_nodes
      rw [List.length_cons] at hlen
      have hidx := (List.getElem?_inj (by omega) hpath.nodup).mp htarget
      omega
  · rintro ⟨edge, hactive, hsource, hne⟩
    exact ⟨edge.targetId, hne, ReflTransGen.single ⟨edge, hactive, hsource, rfl⟩⟩

/-- A validated request has one record for each identifier. -/
theorem Validated.node_eq (hv : Validated request) {node node' : EvidenceNode}
    (h : node ∈ request.nodes) (h' : node' ∈ request.nodes) (hid : node.id = node'.id) :
    node = node' :=
  List.inj_on_of_nodup_map hv.nodes_nodup h h' hid

theorem Validated.edge_eq (hv : Validated request) {edge edge' : EvidenceEdge}
    (h : edge ∈ request.edges) (h' : edge' ∈ request.edges) (hid : edge.id = edge'.id) :
    edge = edge' :=
  List.inj_on_of_nodup_map hv.edges_nodup h h' hid

/-- What is reachable is known. -/
theorem Validated.known_of_reachable (hv : Validated request) {id : String}
    (h : Reachable request id) : Known request id := by
  by_cases htarget : id = request.goal.targetId
  · rw [htarget]
    exact hv.target_known
  · obtain ⟨node, hnode, rfl⟩ := h.active_of_ne htarget
    exact ⟨node, hnode.mem, rfl⟩

/-- Every node of a sound chain is active. -/
theorem SoundChain.active {chain : ProofChain} (h : SoundChain request chain) {id : String}
    (hid : id ∈ chain.nodeIds) : Active request id := by
  obtain ⟨i, hi⟩ := List.mem_iff_getElem?.mp hid
  have hlt := (List.getElem?_eq_some_iff.mp hi).1
  have hlen := h.length
  by_cases hend : i = chain.edgeIds.length
  · -- the last node is the anchor
    obtain ⟨last, hlast, node, hactive, rfl, -⟩ := h.ends
    rw [List.getLast?_eq_getElem?, hlen, Nat.add_sub_cancel, ← hend, hi] at hlast
    rw [Option.some.inj hlast]
    exact ⟨node, hactive, rfl⟩
  · have hedge : chain.edgeIds[i]? = some (chain.edgeIds.get ⟨i, by omega⟩) :=
      List.getElem?_eq_getElem (by omega)
    obtain ⟨edge, -, -, -, -, hsource, -, hactive, -⟩ := h.link i _ hedge
    rw [hi] at hsource
    rw [Option.some.inj hsource]
    exact hactive

end Requests

/-! ### From the part to the whole, and back -/

section Transfer

variable {slice full : KernelRequest} (hsub : SubRequest slice full) (hfull : Validated full)

include hsub

/-- What the part supersedes is superseded. -/
theorem SubRequest.superseded {id : String} (h : Superseded slice id) : Superseded full id := by
  obtain ⟨edge, hedge, hkind, hstatus, htarget, source, hsource, hid, hcurrent⟩ := h
  exact ⟨edge, hsub.edges edge hedge, hkind, hstatus, htarget, source, hsub.nodes source hsource, hid,
    hcurrent⟩

theorem SubRequest.activeNode {node : EvidenceNode} (h : ActiveNode slice node)
    (hkept : ¬ Superseded full node.id) : ActiveNode full node :=
  ⟨hsub.nodes node h.mem, h.current, hkept⟩

theorem SubRequest.active {id : String} (h : Active slice id) (hkept : ¬ Superseded full id) :
    Active full id := by
  obtain ⟨node, hnode, rfl⟩ := h
  exact ⟨node, hsub.activeNode hnode hkept, rfl⟩

/-- A path of the part is a path of the whole when none of its records is superseded there. -/
theorem SubRequest.activePath {nodeIds : List String} {edges : List EvidenceEdge}
    (h : ActivePath slice nodeIds edges) (hkept : ∀ id ∈ nodeIds, ¬ Superseded full id) :
    ActivePath full nodeIds edges := by
  unfold ActivePath
  rw [← hsub.goal]
  apply h.of_edges
  intro edge hedge
  have hactive := h.edges_mem edge hedge
  obtain ⟨hsource, htarget⟩ := h.ends_mem hedge
  exact ⟨hsub.edges edge hactive.mem, hactive.current, hactive.admissible,
    hsub.active hactive.source (hkept _ hsource), hsub.active hactive.target (hkept _ htarget)⟩

theorem SubRequest.anchorPath {nodeIds : List String} {edges : List EvidenceEdge}
    (h : AnchorPath slice nodeIds edges) (hkept : ∀ id ∈ nodeIds, ¬ Superseded full id) :
    AnchorPath full nodeIds edges := by
  obtain ⟨hpath, id, hlast, node, hnode, rfl, hkind⟩ := h
  refine ⟨hsub.activePath hpath hkept, node.id, hlast, node, ?_, rfl, ?_⟩
  · exact hsub.activeNode hnode (hkept node.id (List.mem_of_getLast? hlast))
  · rwa [← hsub.goal]

include hfull

/-- An active record that the part has is active in it. -/
theorem SubRequest.activeNode_of_known {node : EvidenceNode} (h : ActiveNode full node)
    (hknown : Known slice node.id) : ActiveNode slice node := by
  obtain ⟨node', hnode', hid⟩ := hknown
  obtain rfl := hfull.node_eq (hsub.nodes node' hnode') h.mem hid
  exact ⟨hnode', h.current, fun hsuperseded => h.notSuperseded (hsub.superseded hsuperseded)⟩

theorem SubRequest.active_of_known {id : String} (h : Active full id) (hknown : Known slice id) :
    Active slice id := by
  obtain ⟨node, hnode, rfl⟩ := h
  exact ⟨node, hsub.activeNode_of_known hfull hnode hknown, rfl⟩

/-- A conflict of the part counts in the whole when its records do. -/
theorem SubRequest.materialConflict {conflict : Conflict} (h : MaterialConflict slice conflict)
    (hleft : Reached full conflict.leftNodeId) (hright : Reached full conflict.rightNodeId) :
    MaterialConflict full conflict := by
  have hnode : ∀ node, ActiveNode slice node → Active full node.id → ActiveNode full node := by
    rintro node hnode ⟨node', hnode', hid⟩
    obtain rfl := hfull.node_eq hnode'.mem (hsub.nodes node hnode.mem) hid
    exact hnode'
  cases h with
  | explicit hmem _ _ => exact .explicit (hsub.conflicts _ hmem) hleft hright
  | outcomes hl hr _ _ hlk hrk hls hrs hlo hro hne hlt =>
    exact .outcomes (hnode _ hl hleft.1) (hnode _ hr hright.1) hleft.2 hright.2 hlk hrk hls hrs hlo
      hro hne hlt

variable (hslice : Validated slice)

include hslice

theorem SubRequest.activeEdge_of_mem {edge : EvidenceEdge} (h : ActiveEdge full edge)
    (hmem : edge ∈ slice.edges) : ActiveEdge slice edge := by
  obtain ⟨hsource, htarget⟩ := hslice.edges_known edge hmem
  exact ⟨hmem, h.current, h.admissible, hsub.active_of_known hfull h.source hsource,
    hsub.active_of_known hfull h.target htarget⟩

/-- A path of the whole is a path of the part when the part has its first edge: from there on
    nothing leads out of the part. -/
theorem SubRequest.activePath_of_head {nodeIds : List String} {edges : List EvidenceEdge}
    (h : ActivePath full nodeIds edges)
    (hhead : ∀ edge, edges.head? = some edge → edge ∈ slice.edges) :
    ActivePath slice nodeIds edges := by
  have hedges : ∀ edge ∈ edges, edge ∈ slice.edges := by
    apply h.forall_of_head hhead
    intro before edge hbefore hactive hsource hroot
    apply hsub.edges_out edge hactive.mem _ hroot
    rw [hsource]
    exact (hslice.edges_known before hbefore).2
  unfold ActivePath
  rw [hsub.goal]
  apply h.of_edges
  intro edge hedge
  exact hsub.activeEdge_of_mem hfull hslice (h.edges_mem edge hedge) (hedges edge hedge)

theorem SubRequest.anchorPath_of_head {nodeIds : List String} {edges : List EvidenceEdge}
    (h : AnchorPath full nodeIds edges)
    (hhead : ∀ edge, edges.head? = some edge → edge ∈ slice.edges) :
    AnchorPath slice nodeIds edges := by
  obtain ⟨hpath, id, hlast, node, hnode, rfl, hkind⟩ := h
  have hpath' := hsub.activePath_of_head hfull hslice hpath hhead
  have hreach : Reachable slice node.id := reachable_iff_activePath.mpr ⟨_, _, hpath', hlast⟩
  have hknown := hslice.known_of_reachable hreach
  refine ⟨hpath', node.id, hlast, node, hsub.activeNode_of_known hfull hnode hknown, rfl, ?_⟩
  rwa [hsub.goal]

/-- A conflict of the whole counts in the part when the part reaches its records. -/
theorem SubRequest.materialConflict_of_reachable {conflict : Conflict}
    (h : MaterialConflict full conflict) (hleft : Reachable slice conflict.leftNodeId)
    (hright : Reachable slice conflict.rightNodeId)
    (hself : conflict.leftNodeId = conflict.rightNodeId → conflict ∈ slice.conflicts) :
    MaterialConflict slice conflict := by
  have hlk := hslice.known_of_reachable hleft
  have hrk := hslice.known_of_reachable hright
  cases h with
  | explicit hmem hl hr =>
    have hmem' : conflict ∈ slice.conflicts := by
      by_cases heq : conflict.leftNodeId = conflict.rightNodeId
      · exact hself heq
      · exact hsub.conflicts_between conflict hmem hlk hrk heq
    exact .explicit hmem' ⟨hsub.active_of_known hfull hl.1 hlk, hleft⟩
      ⟨hsub.active_of_known hfull hr.1 hrk, hright⟩
  | outcomes hl hr _ _ hlkind hrkind hls hrs hlo hro hne hlt =>
    exact .outcomes (hsub.activeNode_of_known hfull hl hlk) (hsub.activeNode_of_known hfull hr hrk)
      hleft hright hlkind hrkind hls hrs hlo hro hne hlt

end Transfer

/-! ### The answers -/

section Answers

variable {slice full : KernelRequest} {proof proof' : ProofResult}

/-- The ends of a conflict are reached; a conflict of a record with itself is explicit. -/
theorem MaterialConflict.ends {request : KernelRequest} {conflict : Conflict}
    (h : MaterialConflict request conflict) :
    Reached request conflict.leftNodeId ∧ Reached request conflict.rightNodeId ∧
      (conflict.leftNodeId = conflict.rightNodeId → conflict ∈ request.conflicts) := by
  cases h with
  | explicit hmem hleft hright => exact ⟨hleft, hright, fun _ => hmem⟩
  | outcomes hl hr hlr hrr _ _ _ _ _ _ _ hlt =>
    exact ⟨⟨⟨_, hl, rfl⟩, hlr⟩, ⟨⟨_, hr, rfl⟩, hrr⟩, fun heq => absurd heq hlt.ne⟩

section Same

variable (hsub : SubRequest slice full) (hslice : Validated slice) (hfull : Validated full)

include hsub hslice hfull

/-- Where nothing decides outside the part, both have the same material conflicts. -/
theorem NothingDecisive.materialConflict_iff (h : NothingDecisive slice full) (conflict : Conflict) :
    MaterialConflict slice conflict ↔ MaterialConflict full conflict := by
  constructor
  · intro hconflict
    obtain ⟨hleft, hright⟩ := h.conflicts_kept conflict hconflict
    exact hsub.materialConflict hfull hconflict hleft hright
  · intro hconflict
    obtain ⟨hleft, hright, hself⟩ := h.conflicts_found conflict hconflict
    exact hsub.materialConflict_of_reachable hfull hslice hconflict hleft hright hself

/-- … and, without conflicts, the same anchor paths. -/
theorem NothingDecisive.anchorPath_iff (h : NothingDecisive slice full)
    (hno : ¬ ∃ conflict, MaterialConflict slice conflict) (nodeIds : List String)
    (edges : List EvidenceEdge) :
    AnchorPath slice nodeIds edges ↔ AnchorPath full nodeIds edges :=
  ⟨fun hpath => hsub.anchorPath hpath (h.chains_kept hno nodeIds edges hpath),
    fun hpath => hsub.anchorPath_of_head hfull hslice hpath (h.chains_found hno nodeIds edges hpath)⟩

end Same

/-- The paths that the kernel records as anchors are the anchor paths. -/
theorem isActivePath_and_anchor_iff {request : KernelRequest} {path : Path} :
    IsActivePath request path ∧ Anchor request path.lastId ↔
      ∃ edges, AnchorPath request path.nodeIds edges ∧ path.edgeIds = edges.map (·.id) := by
  constructor
  · rintro ⟨⟨edges, hpath, hids⟩, hanchor⟩
    exact ⟨edges, ⟨hpath, path.lastId, path.getLast?_nodeIds, hanchor⟩, hids⟩
  · rintro ⟨edges, ⟨hpath, id, hlast, hanchor⟩, hids⟩
    have hid : path.lastId = id := Option.some.inj (path.getLast?_nodeIds.symm.trans hlast)
    exact ⟨⟨edges, hpath, hids⟩, hid.symm ▸ hanchor⟩

/-- The verdict of a proof without conflicts. -/
theorem VerdictSpec.established_iff_anchorPath {request : KernelRequest}
    (h : VerdictSpec request proof) (hno : ¬ ∃ conflict, MaterialConflict request conflict) :
    proof.verdict = .established ↔ ∃ nodeIds edges, AnchorPath request nodeIds edges := by
  rw [h.established_iff hno, exists_anchorPath_iff]

theorem VerdictSpec.partialProof_iff_leadsOn {request : KernelRequest}
    (h : VerdictSpec request proof) (hno : ¬ ∃ conflict, MaterialConflict request conflict)
    (hnone : ¬ ∃ nodeIds edges, AnchorPath request nodeIds edges) :
    proof.verdict = .partialProof ↔ LeadsOn request := by
  rw [← exists_anchorPath_iff] at hnone
  rw [(h.incomplete hno hnone).1, leadsOn_iff]

/-- The verdict is one of the four. -/
theorem VerdictSpec.verdict_eq {request : KernelRequest} (h : VerdictSpec request proof) :
    ((∃ conflict, MaterialConflict request conflict) ∧ proof.verdict = .conflicted) ∨
    ((¬ ∃ conflict, MaterialConflict request conflict) ∧
      ((∃ nodeIds edges, AnchorPath request nodeIds edges) ∧ proof.verdict = .established ∨
        (¬ ∃ nodeIds edges, AnchorPath request nodeIds edges) ∧
          (LeadsOn request ∧ proof.verdict = .partialProof ∨
            ¬ LeadsOn request ∧ proof.verdict = .notEstablished))) := by
  by_cases hconflict : ∃ conflict, MaterialConflict request conflict
  · exact Or.inl ⟨hconflict, h.conflicted_iff.mpr hconflict⟩
  refine Or.inr ⟨hconflict, ?_⟩
  by_cases hanchor : ∃ nodeIds edges, AnchorPath request nodeIds edges
  · exact Or.inl ⟨hanchor, (h.established_iff_anchorPath hconflict).mpr hanchor⟩
  refine Or.inr ⟨hanchor, ?_⟩
  by_cases hleads : LeadsOn request
  · exact Or.inl ⟨hleads, (h.partialProof_iff_leadsOn hconflict hanchor).mpr hleads⟩
  · refine Or.inr ⟨hleads, ((h.incomplete hconflict ?_).2.1).mpr (fun id hreach => ?_)⟩
    · rwa [exists_anchorPath_iff]
    · by_contra hne
      exact hleads (leadsOn_iff.mp ⟨id, hne, hreach⟩)

/-! ### Chains of both requests -/

section Chains

variable {chains : List ProofChain} {nodeIds : List String} {edges : List EvidenceEdge}

/-- The chains of an anchor path name its records, which the whole has not superseded. -/
theorem ChainsSpec.not_superseded (hslice : ChainsSpec slice chains)
    (hwhole : ChainsSpec full chains) (hpath : AnchorPath slice nodeIds edges) {id : String}
    (hid : id ∈ nodeIds) : ¬ Superseded full id := by
  intro hsuperseded
  obtain ⟨chain, hchain, hstart, -⟩ := hslice.complete nodeIds edges hpath
  obtain ⟨node, hactive, rfl⟩ := (hwhole.sound chain hchain).active (hstart.subset hid)
  exact hactive.notSuperseded hsuperseded

/-- The chains of an anchor path of the whole name its first edge, which the part then has. -/
theorem ChainsSpec.head_mem (hslice : ChainsSpec slice chains) (hwhole : ChainsSpec full chains)
    (hsub : SubRequest slice full) (hfull : Validated full) (hpath : AnchorPath full nodeIds edges)
    {edge : EvidenceEdge} (hedge : edges.head? = some edge) : edge ∈ slice.edges := by
  obtain ⟨chain, hchain, -, hstart⟩ := hwhole.complete nodeIds edges hpath
  obtain ⟨rest, rfl⟩ := List.head?_eq_some_iff.mp hedge
  obtain ⟨more, hmore⟩ := hstart
  have hfirst : chain.edgeIds[0]? = some edge.id := by
    rw [← hmore]
    rfl
  obtain ⟨edge', hmem, hid, -⟩ := (hslice.sound chain hchain).link 0 edge.id hfirst
  have hactive := hpath.1.edges_mem edge List.mem_cons_self
  have heq := hfull.edge_eq (hsub.edges edge' hmem) hactive.mem hid
  rwa [← heq]

end Chains

section Evaluated

variable {version version' : Int} {requestId requestId' snapshotId snapshotId' : String}
  (hs : evaluate slice = some (.proof version requestId snapshotId proof))
  (hf : evaluate full = some (.proof version' requestId' snapshotId' proof'))

include hs hf

/-- Equal material conflicts and anchor paths give equal chains. -/
theorem proofChains_eq
    (hconflict : (∃ conflict, MaterialConflict slice conflict) ↔
      ∃ conflict, MaterialConflict full conflict)
    (hanchor : (¬ ∃ conflict, MaterialConflict slice conflict) → ∀ nodeIds edges,
      AnchorPath slice nodeIds edges ↔ AnchorPath full nodeIds edges) :
    proof.proofChains = proof'.proofChains := by
  rcases proofChains_of_evaluate hs with ⟨hex, hchains⟩ | ⟨hno, anchors, hmem, hchains⟩ <;>
    rcases proofChains_of_evaluate hf with ⟨hex', hchains'⟩ | ⟨hno', anchors', hmem', hchains'⟩
  · rw [hchains, hchains']
  · exact absurd (hconflict.mp hex) hno'
  · exact absurd (hconflict.mpr hex') hno
  · rw [hchains, hchains']
    apply proofChains_congr
    intro path
    rw [hmem, hmem', isActivePath_and_anchor_iff, isActivePath_and_anchor_iff]
    simp only [hanchor hno]

/-- Where nothing decides outside the part, the answers are the same. -/
theorem NothingDecisive.sameAnswer (hsub : SubRequest slice full)
    (h : NothingDecisive slice full) : SameAnswer proof proof' := by
  obtain ⟨hslice, -⟩ := evaluate_eq_proof hs
  obtain ⟨hfull, -⟩ := evaluate_eq_proof hf
  have hspec := verdictSpec_of_evaluate hs
  have hspec' := verdictSpec_of_evaluate hf
  have hconflict := h.materialConflict_iff hsub hslice hfull
  have hanchor := h.anchorPath_iff hsub hslice hfull
  have hexists : (∃ conflict, MaterialConflict slice conflict) ↔
      ∃ conflict, MaterialConflict full conflict := exists_congr hconflict
  constructor
  case verdict =>
    -- conflicts come first, then anchors, then steps: each test agrees once those before it fail
    rcases hspec.verdict_eq with ⟨hex, hverdict⟩ | ⟨hno, hrest⟩
    · rw [hverdict, hspec'.conflicted_iff.mpr (hexists.mp hex)]
    have hno' := mt hexists.mpr hno
    have hpaths : (∃ nodeIds edges, AnchorPath slice nodeIds edges) ↔
        ∃ nodeIds edges, AnchorPath full nodeIds edges := by
      simp only [hanchor hno]
    rcases hrest with ⟨hex, hverdict⟩ | ⟨hnone, hrest⟩
    · rw [hverdict, (hspec'.established_iff_anchorPath hno').mpr (hpaths.mp hex)]
    have hnone' := mt hpaths.mpr hnone
    have hsteps := h.steps hno hnone
    rcases hrest with ⟨hleads, hverdict⟩ | ⟨hleads, hverdict⟩
    · rw [hverdict, (hspec'.partialProof_iff_leadsOn hno' hnone').mpr (hsteps.mp hleads)]
    · rcases hspec'.verdict_eq with ⟨hex, -⟩ | ⟨-, ⟨hex, -⟩ | ⟨-, ⟨hleads', -⟩ | ⟨-, hverdict'⟩⟩⟩
      · exact absurd hex hno'
      · exact absurd hex hnone'
      · exact absurd (hsteps.mpr hleads') hleads
      · rw [hverdict, hverdict']
  case proofChains => exact proofChains_eq hs hf hexists hanchor
  case conflicts =>
    apply eq_of_pairwise_lt_of_mem_iff hspec.conflicts_sorted hspec'.conflicts_sorted
    intro conflict
    rw [hspec.mem_conflicts, hspec'.mem_conflicts, hconflict]

/-- Equal chains without conflicts are the chains of both requests. -/
theorem chainsSpec_both (h : proof.proofChains = proof'.proofChains)
    (hno : ¬ ∃ conflict, MaterialConflict slice conflict)
    (hno' : ¬ ∃ conflict, MaterialConflict full conflict) :
    ChainsSpec slice proof.proofChains ∧ ChainsSpec full proof.proofChains := by
  rcases proofChains_of_evaluate hs with ⟨hex, -⟩ | ⟨-, anchors, hmem, heq⟩
  · exact absurd hex hno
  rcases proofChains_of_evaluate hf with ⟨hex, -⟩ | ⟨-, anchors', hmem', heq'⟩
  · exact absurd hex hno'
  constructor
  · rw [heq]
    exact chainsSpec_established hmem
  · rw [h, heq']
    exact chainsSpec_established hmem'

/-- Where the answers are the same, nothing decides outside the part. -/
theorem SameAnswer.nothingDecisive (hsub : SubRequest slice full) (h : SameAnswer proof proof') :
    NothingDecisive slice full := by
  obtain ⟨hfull, -⟩ := evaluate_eq_proof hf
  have hspec := verdictSpec_of_evaluate hs
  have hspec' := verdictSpec_of_evaluate hf
  have hconflict : ∀ conflict, MaterialConflict slice conflict ↔ MaterialConflict full conflict := by
    intro conflict
    rw [← hspec.mem_conflicts, ← hspec'.mem_conflicts, h.conflicts]
  have hexists : (∃ conflict, MaterialConflict slice conflict) ↔
      ∃ conflict, MaterialConflict full conflict := exists_congr hconflict
  constructor
  -- each clause reads what the whole says about something that the part's answer shows
  case conflicts_kept =>
    intro conflict hmem
    obtain ⟨hleft, hright, -⟩ := ((hconflict conflict).mp hmem).ends
    exact ⟨hleft, hright⟩
  case conflicts_found =>
    intro conflict hmem
    obtain ⟨hleft, hright, hself⟩ := ((hconflict conflict).mpr hmem).ends
    exact ⟨hleft.2, hright.2, hself⟩
  case chains_kept =>
    intro hno nodeIds edges hpath id hid
    obtain ⟨hslice, hwhole⟩ := chainsSpec_both hs hf h.proofChains hno (mt hexists.mpr hno)
    exact hslice.not_superseded hwhole hpath hid
  case chains_found =>
    intro hno nodeIds edges hpath edge hedge
    obtain ⟨hslice, hwhole⟩ := chainsSpec_both hs hf h.proofChains hno (mt hexists.mpr hno)
    exact hslice.head_mem hwhole hsub hfull hpath hedge
  case steps =>
    intro hno hnone
    have hno' := mt hexists.mpr hno
    have hnone' : ¬ ∃ nodeIds edges, AnchorPath full nodeIds edges := by
      rw [← hspec'.established_iff_anchorPath hno', ← h.verdict,
        hspec.established_iff_anchorPath hno]
      exact hnone
    rw [← hspec.partialProof_iff_leadsOn hno hnone, ← hspec'.partialProof_iff_leadsOn hno' hnone',
      h.verdict]

/-- **Answers from a part.** They are those of the whole exactly when nothing outside it decides. -/
theorem sameAnswer_iff (hsub : SubRequest slice full) :
    SameAnswer proof proof' ↔ NothingDecisive slice full :=
  ⟨fun h => h.nothingDecisive hs hf hsub, fun h => h.sameAnswer hs hf hsub⟩

end Evaluated

/-! ### Closed parts -/

/-- The first edge of an active path leaves the target. -/
theorem head_mem_of_target {request : KernelRequest} {nodeIds : List String}
    {edges : List EvidenceEdge} (hpath : ActivePath request nodeIds edges) {edge : EvidenceEdge}
    (hedge : edges.head? = some edge) :
    edge ∈ request.edges ∧ edge.sourceId = request.goal.targetId := by
  obtain ⟨rest, rfl⟩ := List.head?_eq_some_iff.mp hedge
  refine ⟨(hpath.edges_mem edge List.mem_cons_self).mem, ?_⟩
  have hroot := hpath.head?_eq
  rw [List.head?_eq_getElem?, (hpath.link (i := 0) rfl).1] at hroot
  exact Option.some.inj hroot

section Closed

variable (hsub : SubRequest slice full)
  (hsuperseded : ∀ id, Known slice id → Superseded full id → Superseded slice id)

include hsub hsuperseded

/-- What a closed part keeps is not superseded outside it. -/
theorem SubRequest.active_of_closed {id : String} (h : Active slice id) : Active full id := by
  apply hsub.active h
  obtain ⟨node, hnode, rfl⟩ := h
  exact fun hfull => hnode.notSuperseded (hsuperseded node.id ⟨node, hnode.mem, rfl⟩ hfull)

theorem SubRequest.activeEdge_of_closed {edge : EvidenceEdge} (h : ActiveEdge slice edge) :
    ActiveEdge full edge :=
  ⟨hsub.edges edge h.mem, h.current, h.admissible, hsub.active_of_closed hsuperseded h.source,
    hsub.active_of_closed hsuperseded h.target⟩

theorem SubRequest.reached_of_closed {id : String} (h : Reached slice id) : Reached full id := by
  obtain ⟨hid, hreach⟩ := h
  refine ⟨hsub.active_of_closed hsuperseded hid, ?_⟩
  have hstep : Step slice ≤ Step full := by
    rintro _ _ ⟨edge, h, hsource, htarget⟩
    exact ⟨edge, hsub.activeEdge_of_closed hsuperseded h, hsource, htarget⟩
  unfold Reachable at hreach ⊢
  rw [← hsub.goal]
  exact ReflTransGen.mono hstep _ _ hreach

end Closed

/-- **A closed part** has what supersedes its records, and everything that leaves the target: nothing
    outside it decides. -/
theorem nothingDecisive_of_closed (hsub : SubRequest slice full) (hslice : Validated slice)
    (hfull : Validated full)
    (hsuperseded : ∀ id, Known slice id → Superseded full id → Superseded slice id)
    (htarget : ∀ edge ∈ full.edges, edge.sourceId = full.goal.targetId → edge ∈ slice.edges)
    (hself : ∀ conflict ∈ full.conflicts, conflict.leftNodeId = conflict.rightNodeId →
      Known slice conflict.leftNodeId → conflict ∈ slice.conflicts) :
    NothingDecisive slice full := by
  have hhead : ∀ nodeIds edges, ActivePath full nodeIds edges →
      ∀ edge, edges.head? = some edge → edge ∈ slice.edges := by
    intro nodeIds edges hpath edge hfirst
    obtain ⟨hmem, hsource⟩ := head_mem_of_target hpath hfirst
    exact htarget edge hmem hsource
  -- only the first edge of a path leaves the target, and the part has it; the rest follow from the
  -- kernel's own closure
  have hfound : ∀ id, Reachable full id → Reachable slice id := by
    intro id hreach
    obtain ⟨nodeIds, edges, hpath, hlast⟩ := reachable_iff_activePath.mp hreach
    have hpath' := hsub.activePath_of_head hfull hslice hpath (hhead nodeIds edges hpath)
    exact reachable_iff_activePath.mpr ⟨nodeIds, edges, hpath', hlast⟩
  constructor
  case conflicts_kept =>
    intro conflict h
    obtain ⟨hleft, hright, -⟩ := h.ends
    exact ⟨hsub.reached_of_closed hsuperseded hleft, hsub.reached_of_closed hsuperseded hright⟩
  case conflicts_found =>
    intro conflict h
    obtain ⟨hleft, hright, hmem⟩ := h.ends
    refine ⟨hfound _ hleft.2, hfound _ hright.2, fun heq => ?_⟩
    exact hself conflict (hmem heq) heq (hslice.known_of_reachable (hfound _ hleft.2))
  case chains_kept =>
    rintro - nodeIds edges hpath id hid
    let path : Path := ⟨nodeIds, edges.map (·.id), hpath.1.nodes_ne_nil⟩
    obtain ⟨hpath', hanchor⟩ :=
      (@isActivePath_and_anchor_iff slice path).mpr ⟨edges, hpath, rfl⟩
    obtain ⟨node, hactive, rfl⟩ :=
      hsub.active_of_closed hsuperseded ((soundChain_of_path hpath' hanchor).active hid)
    exact hactive.notSuperseded
  case chains_found => exact fun _ nodeIds edges hpath => hhead nodeIds edges hpath.1
  case steps =>
    intro _ _
    constructor
    · rintro ⟨edge, h, hsource, hne⟩
      rw [hsub.goal] at hsource hne
      exact ⟨edge, hsub.activeEdge_of_closed hsuperseded h, hsource, hne⟩
    · rintro ⟨edge, h, hsource, hne⟩
      have hmem := htarget edge h.mem hsource
      rw [← hsub.goal] at hsource hne
      exact ⟨edge, hsub.activeEdge_of_mem hfull hslice h hmem, hsource, hne⟩

end Answers

end Rationale.Kernel
