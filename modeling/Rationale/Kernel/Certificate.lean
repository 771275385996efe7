import Rationale.Kernel.Historical

namespace Rationale.Kernel

open Std Relation Rationale.Library

/-!
# Less evidence and more

A chain of an established proof can be checked without the rest of the evidence, and evidence that is
added without superseding anything only strengthens a verdict.

* `certificate` — the request with the records and edges of one chain only;
* `Subgraph` — a request for the same goal whose active evidence is part of another's;
* `ChainOf` — the path of active edges behind a chain;
* `evaluate_certificate` — the certificate of a chain is established, by exactly this chain;
* `Adds`, `strength` — a request with more evidence, and how much a verdict says;
* `evaluate_adds` — with more evidence a verdict is at least as strong, no conflict disappears, and
  every chain is kept or continued.
-/

/-- The request with the records and the edges of one chain only. -/
def certificate (request : KernelRequest) (chain : ProofChain) : KernelRequest :=
  without request (fun id => !chain.nodeIds.contains id) fun edge => !chain.edgeIds.contains edge.id

theorem mem_nodes_certificate {request : KernelRequest} {chain : ProofChain} {node : EvidenceNode} :
    node ∈ (certificate request chain).nodes ↔ node ∈ request.nodes ∧ node.id ∈ chain.nodeIds := by
  rw [certificate, mem_nodes_without]
  simp

/-! ### Parts of an active graph -/

/-- A request for the same goal with part of the active evidence. -/
structure Subgraph (part whole : KernelRequest) : Prop where
  goal : part.goal = whole.goal
  activeNode : ∀ node, ActiveNode part node → ActiveNode whole node
  activeEdge : ∀ edge, ActiveEdge part edge → ActiveEdge whole edge
  conflict : ∀ conflict ∈ part.conflicts, conflict ∈ whole.conflicts

section Subgraph

variable {part whole : KernelRequest} (h : Subgraph part whole)

include h

theorem Subgraph.reached {id : String} (hreached : Reached part id) : Reached whole id := by
  obtain ⟨⟨node, hnode, hid⟩, hreach⟩ := hreached
  refine ⟨⟨node, h.activeNode node hnode, hid⟩, ?_⟩
  have hstep : Step part ≤ Step whole := by
    rintro _ _ ⟨edge, hedge, hsource, htarget⟩
    exact ⟨edge, h.activeEdge edge hedge, hsource, htarget⟩
  unfold Reachable at hreach ⊢
  rw [← h.goal]
  exact ReflTransGen.mono hstep _ _ hreach

/-- What decides the part decides the whole. -/
theorem Subgraph.materialConflict {conflict : Conflict} (hconflict : MaterialConflict part conflict) :
    MaterialConflict whole conflict := by
  cases hconflict with
  | explicit hmem hleft hright =>
    exact .explicit (h.conflict _ hmem) (h.reached hleft) (h.reached hright)
  | outcomes hla hra hlr hrr hlk hrk hls hrs hlo hro hne hlt =>
    exact .outcomes (h.activeNode _ hla) (h.activeNode _ hra) (h.reached ⟨⟨_, hla, rfl⟩, hlr⟩).2
      (h.reached ⟨⟨_, hra, rfl⟩, hrr⟩).2 hlk hrk hls hrs hlo hro hne hlt

end Subgraph

/-! ### The path behind a chain -/

variable {request : KernelRequest} {chain : ProofChain}

/-- A chain is the record of an anchor path. -/
structure ChainOf (request : KernelRequest) (chain : ProofChain) (edges : List EvidenceEdge) :
    Prop where
  path : AnchorPath request chain.nodeIds edges
  edgeIds : chain.edgeIds = edges.map (·.id)
  ruleIds : chain.ruleIds = ["edge.current", "path.admissible", "anchor.current"]

/-- The chains of a proof are records of anchor paths, and leave no conflict. -/
theorem exists_chainOf {version : Int} {requestId snapshotId : String} {proof : ProofResult}
    (h : evaluate request = some (.proof version requestId snapshotId proof))
    (hchain : chain ∈ proof.proofChains) :
    (¬ ∃ conflict, MaterialConflict request conflict) ∧ ∃ edges, ChainOf request chain edges := by
  rcases proofChains_of_evaluate h with ⟨-, hnil⟩ | ⟨hno, anchors, hmem, heq⟩
  · rw [hnil] at hchain
    exact nomatch hchain
  · rw [heq] at hchain
    obtain ⟨path, hpath, rfl⟩ := mem_proofChains.mp hchain
    have hanchor := (hmem path).mp (mem_maximalPaths.mp hpath).1
    obtain ⟨edges, hanchorPath, hids⟩ := isActivePath_and_anchor_iff.mp hanchor
    exact ⟨hno, edges, ⟨hanchorPath, hids, rfl⟩⟩

section Chain

variable {edges : List EvidenceEdge} (hv : Validated request) (h : ChainOf request chain edges)

include h

/-- The records of a chain are active. -/
theorem ChainOf.active {id : String} (hid : id ∈ chain.nodeIds) : Active request id := by
  let path : Path := ⟨chain.nodeIds, edges.map (·.id), h.path.1.nodes_ne_nil⟩
  obtain ⟨hpath, hanchor⟩ := (@isActivePath_and_anchor_iff request path).mpr ⟨edges, h.path, rfl⟩
  exact (soundChain_of_path hpath hanchor).active hid

theorem ChainOf.target_mem : request.goal.targetId ∈ chain.nodeIds :=
  List.mem_of_head? h.path.1.head?_eq

/-- The edges of the path leave different records. -/
theorem ChainOf.eq_of_source {edge edge' : EvidenceEdge} (hedge : edge ∈ edges)
    (hedge' : edge' ∈ edges) (heq : edge.sourceId = edge'.sourceId) : edge = edge' := by
  obtain ⟨i, hi⟩ := List.mem_iff_getElem?.mp hedge
  obtain ⟨j, hj⟩ := List.mem_iff_getElem?.mp hedge'
  have hsource := (h.path.1.link hi).1
  have hsource' := (h.path.1.link hj).1
  have hlt := (List.getElem?_eq_some_iff.mp hsource).1
  rw [heq] at hsource
  rw [(List.getElem?_inj hlt h.path.1.nodup).mp (hsource.trans hsource'.symm), hj] at hi
  exact (Option.some.inj hi).symm

include hv

/-- The edges of the certificate are those of the path. -/
theorem ChainOf.mem_edges {edge : EvidenceEdge} :
    edge ∈ (certificate request chain).edges ↔ edge ∈ edges := by
  rw [certificate, mem_edges_without]
  simp only [Bool.not_eq_false', List.contains_eq_mem, decide_eq_true_eq, h.edgeIds, List.mem_map]
  constructor
  · rintro ⟨hmem, -, edge', hedge', hid⟩
    rwa [← hv.edge_eq (h.path.1.edges_mem edge' hedge').mem hmem hid]
  · intro hedge
    exact ⟨(h.path.1.edges_mem edge hedge).mem, h.path.1.ends_mem hedge, edge, hedge, rfl⟩

theorem ChainOf.validated : Validated (certificate request chain) :=
  hv.without (by simpa using h.target_mem)

/-- Nothing is superseded in the certificate: its edges are admissible. -/
theorem ChainOf.not_superseded {id : String} : ¬ Superseded (certificate request chain) id := by
  rintro ⟨edge, hedge, hkind, -⟩
  exact (h.path.1.edges_mem edge ((h.mem_edges hv).mp hedge)).admissible hkind

theorem ChainOf.activeNode_iff {node : EvidenceNode} :
    ActiveNode (certificate request chain) node ↔
      ActiveNode request node ∧ node.id ∈ chain.nodeIds := by
  constructor
  · rintro ⟨hmem, -, -⟩
    obtain ⟨hnode, hid⟩ := mem_nodes_certificate.mp hmem
    obtain ⟨node', hactive, heq⟩ := h.active hid
    rw [hv.node_eq hnode hactive.mem heq.symm]
    exact ⟨hactive, heq ▸ hid⟩
  · rintro ⟨hactive, hid⟩
    exact ⟨mem_nodes_certificate.mpr ⟨hactive.mem, hid⟩, hactive.current, h.not_superseded hv⟩

theorem ChainOf.active_certificate {id : String} (hid : id ∈ chain.nodeIds) :
    Active (certificate request chain) id := by
  obtain ⟨node, hnode, rfl⟩ := h.active hid
  exact ⟨node, (h.activeNode_iff hv).mpr ⟨hnode, hid⟩, rfl⟩

theorem ChainOf.activeEdge_iff {edge : EvidenceEdge} :
    ActiveEdge (certificate request chain) edge ↔ edge ∈ edges := by
  constructor
  · exact fun hedge => (h.mem_edges hv).mp hedge.mem
  · intro hedge
    have hactive := h.path.1.edges_mem edge hedge
    obtain ⟨hsource, htarget⟩ := h.path.1.ends_mem hedge
    exact ⟨(h.mem_edges hv).mpr hedge, hactive.current, hactive.admissible,
      h.active_certificate hv hsource, h.active_certificate hv htarget⟩

theorem ChainOf.subgraph : Subgraph (certificate request chain) request where
  goal := rfl
  activeNode node hnode := ((h.activeNode_iff hv).mp hnode).1
  activeEdge edge hedge := h.path.1.edges_mem edge ((h.activeEdge_iff hv).mp hedge)
  conflict conflict hconflict := by
    rw [certificate, mem_conflicts_without] at hconflict
    exact hconflict.1

/-- The path of the chain is an anchor path of the certificate. -/
theorem ChainOf.anchorPath : AnchorPath (certificate request chain) chain.nodeIds edges := by
  obtain ⟨hpath, id, hlast, node, hnode, rfl, hkind⟩ := h.path
  refine ⟨hpath.of_edges (fun edge hedge => (h.activeEdge_iff hv).mpr hedge), node.id, hlast, node, ?_,
    rfl, hkind⟩
  exact (h.activeNode_iff hv).mpr ⟨hnode, List.mem_of_getLast? hlast⟩

/-- Every path of the certificate is a start of the chain's path. -/
theorem ChainOf.prefix_of_activePath {nodeIds : List String} {edges' : List EvidenceEdge}
    (hpath : ActivePath (certificate request chain) nodeIds edges') :
    nodeIds <+: chain.nodeIds ∧ edges' <+: edges := by
  have hchain := (h.anchorPath hv).1
  have hle : edges'.length ≤ edges.length := by
    have hnodes : nodeIds ⊆ chain.nodeIds := by
      rw [hpath.nodes_eq, hchain.nodes_eq]
      apply List.cons_subset_cons
      intro id hid
      obtain ⟨edge, hedge, rfl⟩ := List.mem_map.mp hid
      have hmem := (h.activeEdge_iff hv).mp (hpath.edges_mem edge hedge)
      exact List.mem_map_of_mem hmem
    have hlength := (List.subperm_of_subset hpath.nodup hnodes).length_le
    rw [hpath.length_nodes, hchain.length_nodes] at hlength
    omega
  have hpaths := SimplePath.prefix_of_length_le (fun edge edge' hedge hedge' =>
    h.eq_of_source ((h.activeEdge_iff hv).mp hedge) ((h.activeEdge_iff hv).mp hedge'))
    hpath hchain hle
  refine ⟨?_, hpaths⟩
  rw [hpath.nodes_eq, hchain.nodes_eq]
  exact List.prefix_cons_inj _ |>.mpr (hpaths.map _)

/-- The recorded paths of the certificate that no other extends: the chain's path only. -/
theorem ChainOf.mem_maximalPaths {anchors : List Path}
    (hmem : ∀ path, path ∈ anchors ↔ IsActivePath (certificate request chain) path ∧
      Anchor (certificate request chain) path.lastId) {path : Path} :
    path ∈ maximalPaths anchors ↔ path.nodeIds = chain.nodeIds ∧ path.edgeIds = chain.edgeIds := by
  have hstart : ∀ path ∈ anchors, path.nodeIds <+: chain.nodeIds ∧ path.edgeIds <+: chain.edgeIds ∧
      path.nodeIds.length = path.edgeIds.length + 1 := by
    intro path hpath
    obtain ⟨⟨edges', hactive, hids⟩, -⟩ := (hmem path).mp hpath
    obtain ⟨hnodes, hedges⟩ := h.prefix_of_activePath hv hactive
    refine ⟨hnodes, ?_, ?_⟩
    · rw [hids, h.edgeIds]
      exact hedges.map _
    · rw [hids, List.length_map, hactive.length_nodes]
  have hself : ∀ path : Path, path.nodeIds = chain.nodeIds → path.edgeIds = chain.edgeIds →
      path ∈ maximalPaths anchors := by
    intro path hnodes hedges
    refine Kernel.mem_maximalPaths.mpr ⟨(hmem path).mpr (isActivePath_and_anchor_iff.mpr
      ⟨edges, hnodes ▸ h.anchorPath hv, hedges.trans h.edgeIds⟩), ?_⟩
    intro other hother hextends
    have hlt := (extendsPath_iff.mp hextends).1
    have hle := (hstart other hother).2.1.length_le
    rw [hedges] at hlt
    omega
  constructor
  · intro hpath
    have hin := (Kernel.mem_maximalPaths.mp hpath).1
    obtain ⟨hnodes, hedges, -⟩ := hstart path hin
    let whole : Path := ⟨chain.nodeIds, chain.edgeIds, h.path.1.nodes_ne_nil⟩
    rw [eq_of_prefix_of_mem_maximalPaths hpath (hself whole rfl rfl) hnodes hedges
      (fun path hpath => (hstart path hpath).2.2)]
    exact ⟨rfl, rfl⟩
  · exact fun ⟨hnodes, hedges⟩ => hself path hnodes hedges

/-- The proof drawn from the chain's path. -/
theorem ChainOf.established_eq {anchors : List Path}
    (hmem : ∀ path, path ∈ anchors ↔ IsActivePath (certificate request chain) path ∧
      Anchor (certificate request chain) path.lastId) :
    established anchors = ⟨.established, [chain], [], []⟩ := by
  let whole : Path := ⟨chain.nodeIds, chain.edgeIds, h.path.1.nodes_ne_nil⟩
  have hsorted : sortUniq comparePaths (maximalPaths anchors) = [whole] := by
    refine eq_of_pairwise_lt_of_mem_iff (sortUniq_pairwise _) (List.pairwise_singleton _ _)
      (fun path => ?_)
    rw [mem_sortUniq, h.mem_maximalPaths hv hmem, List.mem_singleton, Path.ext_iff]
  have hchain : proofChain whole = chain := by
    obtain ⟨nodeIds, edgeIds, ruleIds⟩ := chain
    rw [show ruleIds = _ from h.ruleIds]
    rfl
  rw [established, hsorted, List.map_singleton, hchain]

end Chain

/-- **Certificates.** A chain that a proof returns is established by its own records and edges: the
    rest of the evidence can be left out, and the same chain is all that is found. -/
theorem evaluate_certificate {version : Int} {requestId snapshotId : String} {proof : ProofResult}
    (h : evaluate request = some (.proof version requestId snapshotId proof))
    (hchain : chain ∈ proof.proofChains) :
    evaluate (certificate request chain) =
      some (.proof 1 request.requestId request.snapshotId ⟨.established, [chain], [], []⟩) := by
  obtain ⟨hno, edges, hof⟩ := exists_chainOf h hchain
  obtain ⟨hv, traversal, ht, -⟩ := evaluate_eq_proof h
  have hcert := hof.validated hv
  have hsub := hof.subgraph hv
  -- fewer edges are traversed to the end, and no conflict arises
  obtain ⟨traversal', ht'⟩ := exists_traversal_of_subgraph hcert hv rfl hsub.activeEdge ⟨_, ht⟩
  have hspec := traversalOf_spec hcert ht'
  have hconflicts : conflictsOf (certificate request chain) traversal'.reachable = [] := by
    rw [List.eq_nil_iff_forall_not_mem]
    intro conflict hmem
    exact hno ⟨conflict, hsub.materialConflict ((mem_conflictsOf hcert hspec.mem_reachable).mp hmem)⟩
  have hanchors : traversal'.anchors ≠ [] :=
    (anchors_ne_nil_iff hspec).mpr (exists_anchorPath_iff.mpr ⟨_, _, hof.anchorPath hv⟩)
  rw [evaluate_of_traversal hcert ht', hconflicts]
  rcases proofOf_cases hcert hspec [] with ⟨hne, -⟩ | ⟨-, -, hcase⟩ | ⟨-, hnil, -⟩
  · exact absurd rfl hne
  · rw [hcase, Option.map_some, hof.established_eq hv hspec.mem_anchors]
    rfl
  · exact absurd hnil hanchors

/-- The chain of the sample request, on its own. -/
theorem evaluate_certificate_sample :
    evaluate (certificate sampleRequest ⟨["change", "item", "new"], ["e1", "e2"],
      ["edge.current", "path.admissible", "anchor.current"]⟩) =
        some (.proof 1 "query" "snapshot" sampleProof) := by
  have h : evaluate sampleRequest = some (.proof 1 "query" "snapshot" sampleProof) := by
    decide
  exact evaluate_certificate h List.mem_cons_self

/-! ### More evidence -/

/-- A request for the same goal with more evidence, where nothing that is added supersedes. -/
structure Adds (part whole : KernelRequest) : Prop where
  goal : part.goal = whole.goal
  nodes : ∀ node ∈ part.nodes, node ∈ whole.nodes
  edges : ∀ edge ∈ part.edges, edge ∈ whole.edges
  conflicts : ∀ conflict ∈ part.conflicts, conflict ∈ whole.conflicts
  superseding : ∀ edge ∈ whole.edges, edge.kind = .supersedes → edge ∈ part.edges

/-- How much a verdict says. -/
def strength : Verdict → Nat
  | .notEstablished => 0
  | .partialProof => 1
  | .established => 2
  | .conflicted => 3

section Adds

variable {part whole : KernelRequest} (h : Adds part whole) (hpart : Validated part)
  (hwhole : Validated whole)

include h hpart hwhole

/-- What is superseded in the whole is superseded by a record of the part. -/
theorem Adds.superseded {id : String} (hsuperseded : Superseded whole id) : Superseded part id := by
  obtain ⟨edge, hedge, hkind, hstatus, htarget, source, hsource, hid, hcurrent⟩ := hsuperseded
  have hmem := h.superseding edge hedge hkind
  obtain ⟨source', hsource', hid'⟩ := (hpart.edges_known edge hmem).1
  rw [hwhole.node_eq hsource (h.nodes source' hsource') (hid.trans hid'.symm)] at hcurrent
  exact ⟨edge, hmem, hkind, hstatus, htarget, source', hsource', hid', hcurrent⟩

theorem Adds.activeNode {node : EvidenceNode} (hnode : ActiveNode part node) :
    ActiveNode whole node :=
  ⟨h.nodes node hnode.mem, hnode.current,
    fun hsuperseded => hnode.notSuperseded (h.superseded hpart hwhole hsuperseded)⟩

theorem Adds.subgraph : Subgraph part whole where
  goal := h.goal
  activeNode node hnode := h.activeNode hpart hwhole hnode
  activeEdge := by
    rintro edge ⟨hmem, hcurrent, hkind, ⟨source, hsource, hsourceId⟩, target, htarget, htargetId⟩
    exact ⟨h.edges edge hmem, hcurrent, hkind,
      ⟨source, h.activeNode hpart hwhole hsource, hsourceId⟩,
      ⟨target, h.activeNode hpart hwhole htarget, htargetId⟩⟩
  conflict := h.conflicts

end Adds

section Stronger

variable {part whole : KernelRequest} (h : Subgraph part whole)

include h

theorem Subgraph.anchorPath {nodeIds : List String} {edges : List EvidenceEdge}
    (hpath : AnchorPath part nodeIds edges) : AnchorPath whole nodeIds edges := by
  obtain ⟨hactive, id, hlast, node, hnode, hid, hkind⟩ := hpath
  rw [h.goal] at hkind
  refine ⟨?_, id, hlast, node, h.activeNode node hnode, hid, hkind⟩
  unfold ActivePath
  rw [← h.goal]
  exact hactive.of_edges (fun edge hedge => h.activeEdge edge (hactive.edges_mem edge hedge))

theorem Subgraph.leadsOn (hleads : LeadsOn part) : LeadsOn whole := by
  obtain ⟨edge, hedge, hsource, htarget⟩ := hleads
  rw [h.goal] at hsource htarget
  exact ⟨edge, h.activeEdge edge hedge, hsource, htarget⟩

/-- More active evidence makes a verdict stronger: each kind of verdict is witnessed by something
    that the whole has too. -/
theorem Subgraph.strength_le {proof proof' : ProofResult} (hspec : VerdictSpec part proof)
    (hspec' : VerdictSpec whole proof') : strength proof.verdict ≤ strength proof'.verdict := by
  rcases hspec'.verdict_eq with ⟨-, hverdict'⟩ | ⟨hno', hrest'⟩
  · rw [hverdict']
    cases proof.verdict <;> decide
  have hno : ¬ ∃ conflict, MaterialConflict part conflict :=
    fun ⟨conflict, hconflict⟩ => hno' ⟨conflict, h.materialConflict hconflict⟩
  rcases hspec.verdict_eq with ⟨hex, -⟩ | ⟨-, hrest⟩
  · exact absurd hex hno
  rcases hrest' with ⟨-, hverdict'⟩ | ⟨hnone', hrest'⟩
  · rcases hrest with ⟨-, hverdict⟩ | ⟨-, ⟨-, hverdict⟩ | ⟨-, hverdict⟩⟩ <;>
      rw [hverdict, hverdict'] <;> decide
  rcases hrest with ⟨⟨nodeIds, edges, hpath⟩, -⟩ | ⟨-, hrest⟩
  · exact absurd ⟨nodeIds, edges, h.anchorPath hpath⟩ hnone'
  rcases hrest with ⟨hleads, hverdict⟩ | ⟨-, hverdict⟩
  · rcases hrest' with ⟨-, hverdict'⟩ | ⟨hnone, -⟩
    · rw [hverdict, hverdict']
    · exact absurd (h.leadsOn hleads) hnone
  · rw [hverdict]
    exact Nat.zero_le _

end Stronger

/-- **More evidence.** Where evidence is added and none of it supersedes, the verdict is at least as
    strong, every conflict stays, and every chain starts a chain of an established proof. -/
theorem evaluate_adds {part whole : KernelRequest} {version version' : Int}
    {requestId requestId' snapshotId snapshotId' : String} {proof proof' : ProofResult}
    (hadds : Adds part whole)
    (h : evaluate part = some (.proof version requestId snapshotId proof))
    (h' : evaluate whole = some (.proof version' requestId' snapshotId' proof')) :
    strength proof.verdict ≤ strength proof'.verdict ∧
      (∀ conflict ∈ proof.conflicts, conflict ∈ proof'.conflicts) ∧
      (proof'.verdict = .established → ∀ chain ∈ proof.proofChains,
        ∃ chain' ∈ proof'.proofChains,
          chain.nodeIds <+: chain'.nodeIds ∧ chain.edgeIds <+: chain'.edgeIds) := by
  have hsub := hadds.subgraph (evaluate_eq_proof h).1 (evaluate_eq_proof h').1
  have hspec := verdictSpec_of_evaluate h
  have hspec' := verdictSpec_of_evaluate h'
  refine ⟨hsub.strength_le hspec hspec', ?_, ?_⟩
  · intro conflict hmem
    rw [hspec.mem_conflicts] at hmem
    rw [hspec'.mem_conflicts]
    exact hsub.materialConflict hmem
  · intro hverdict chain hchain
    obtain ⟨-, edges, hof⟩ := exists_chainOf h hchain
    rw [hof.edgeIds]
    rcases proofChains_of_evaluate h' with ⟨hex, -⟩ | ⟨-, anchors, hmem, heq⟩
    · rw [hspec'.conflicted_iff.mpr hex] at hverdict
      exact nomatch hverdict
    · rw [heq]
      exact (chainsSpec_established hmem).complete _ _ (hsub.anchorPath hof.path)

/-- The sample request before its decision was documented. -/
def undocumentedRequest : KernelRequest :=
  { sampleRequest with edges := sampleRequest.edges.filter fun edge => edge.id ≠ "e2" }

/-- The chain to the work item starts the chain to the decision. -/
theorem evaluate_adds_sample : ∃ proof,
    evaluate undocumentedRequest = some (.proof 1 "query" "snapshot" proof) ∧
      proof.proofChains.map (·.nodeIds) = [["change", "item"]] ∧
      ∀ chain ∈ proof.proofChains, ∃ chain' ∈ sampleProof.proofChains,
        chain.nodeIds <+: chain'.nodeIds ∧ chain.edgeIds <+: chain'.edgeIds := by
  have hadds : Adds undocumentedRequest sampleRequest :=
    ⟨rfl, by decide, by decide, by decide, by decide⟩
  have h : evaluate undocumentedRequest = some (.proof 1 "query" "snapshot"
      ⟨.established, [⟨["change", "item"], ["e1"],
        ["edge.current", "path.admissible", "anchor.current"]⟩], [], []⟩) := by
    decide
  have h' : evaluate sampleRequest = some (.proof 1 "query" "snapshot" sampleProof) := by
    decide
  exact ⟨_, h, rfl, (evaluate_adds hadds h h').2.2 rfl⟩

end Rationale.Kernel
