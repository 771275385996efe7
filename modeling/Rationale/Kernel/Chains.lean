import Mathlib.Data.Finset.Max
import Rationale.Kernel.Verdict

namespace Rationale.Kernel

open Std Rationale.Library

/-!
# Proof chains are the maximal anchor paths

* `evaluate_eq_proof` — inversion of `evaluate` at a proof response;
* `exists_mem_maximalPaths` — every recorded path is a prefix of a maximal one;
* `ChainsSpec` — soundness, completeness, maximality and order of the chains returned;
* `evaluate_chains` — every established proof meets `ChainsSpec`.
-/

variable {request : KernelRequest}

/-- **Inversion of `evaluate`.** A proof response comes from a validated request, a finished
    traversal, and the proof drawn from it. -/
theorem evaluate_eq_proof {version : Int} {requestId snapshotId : String} {proof : ProofResult}
    (h : evaluate request = some (.proof version requestId snapshotId proof)) :
    Validated request ∧ ∃ traversal, traversalOf request = .ok traversal ∧
      proofOf (nodeMap request.nodes) traversal (conflictsOf request traversal.reachable)
        = some proof := by
  cases hvalid : validate request with
  | error failure => simp [evaluate, hvalid, protocolError] at h
  | ok nodes =>
    obtain ⟨hv, rfl⟩ := validate_eq_ok_iff.mp hvalid
    refine ⟨hv, ?_⟩
    cases ht : traversalOf request with
    | error failure =>
      have ht' := ht
      rw [traversalOf, activeEdgesOf, supersededOf] at ht'
      simp [evaluate, hvalid, ht', protocolError] at h
    | ok traversal =>
      rw [evaluate_of_traversal hv ht, Option.map_eq_some_iff] at h
      obtain ⟨proof', hproof, heq⟩ := h
      obtain ⟨-, -, -, rfl⟩ := KernelResponse.proof.inj heq
      exact ⟨traversal, rfl, hproof⟩

/-- A proof response decides the active evidence graph. -/
theorem verdictSpec_of_evaluate {version : Int} {requestId snapshotId : String}
    {proof : ProofResult}
    (h : evaluate request = some (.proof version requestId snapshotId proof)) :
    VerdictSpec request proof := by
  obtain ⟨hv, traversal, ht, -⟩ := evaluate_eq_proof h
  obtain ⟨proof', hproof', hspec⟩ := verdictSpec_of_traversal hv ht
  obtain ⟨-, -, -, rfl⟩ := KernelResponse.proof.inj (Option.some.inj (h.symm.trans hproof'))
  exact hspec

/-- Without material conflicts a proof's chains are drawn from its anchor paths; otherwise it has
    none. -/
theorem proofChains_of_evaluate {version : Int} {requestId snapshotId : String}
    {proof : ProofResult}
    (h : evaluate request = some (.proof version requestId snapshotId proof)) :
    (∃ conflict, MaterialConflict request conflict) ∧ proof.proofChains = [] ∨
    (¬ ∃ conflict, MaterialConflict request conflict) ∧ ∃ anchors,
      (∀ path, path ∈ anchors ↔ IsActivePath request path ∧ Anchor request path.lastId) ∧
      proof.proofChains = (established anchors).proofChains := by
  obtain ⟨hv, traversal, ht, hproof⟩ := evaluate_eq_proof h
  have hspec := traversalOf_spec hv ht
  have hmem : ∀ conflict, conflict ∈ conflictsOf request traversal.reachable ↔
      MaterialConflict request conflict := fun _ => mem_conflictsOf hv hspec.mem_reachable
  have hnil : conflictsOf request traversal.reachable = [] ↔
      ¬ ∃ conflict, MaterialConflict request conflict := by
    rw [List.eq_nil_iff_forall_not_mem, not_exists]
    exact forall_congr' (fun conflict => not_congr (hmem conflict))
  rcases proofOf_cases hv hspec (conflictsOf request traversal.reachable) with
    ⟨hne, hcase⟩ | ⟨heq, _, hcase⟩ | ⟨heq, hnone, frontier, node, _, _, _, hcase⟩
  · obtain rfl := Option.some.inj (hproof.symm.trans hcase)
    exact Or.inl ⟨not_not.mp (fun hno => hne (hnil.mpr hno)), rfl⟩
  · obtain rfl := Option.some.inj (hproof.symm.trans hcase)
    exact Or.inr ⟨hnil.mp heq, traversal.anchors, hspec.mem_anchors, rfl⟩
  · obtain rfl := Option.some.inj (hproof.symm.trans hcase)
    refine Or.inr ⟨hnil.mp heq, [], fun path => ?_, rfl⟩
    rw [← hspec.mem_anchors, hnone]

/-! ### Maximal paths -/

/-- Every path of a list is a prefix of one that `maximalPaths` keeps. -/
theorem exists_mem_maximalPaths {paths : List Path} {path : Path} (hpath : path ∈ paths) :
    ∃ longest ∈ maximalPaths paths,
      path.nodeIds <+: longest.nodeIds ∧ path.edgeIds <+: longest.edgeIds := by
  -- a longest path among those that start with `path`
  let above := paths.toFinset.filter fun other =>
    path.nodeIds <+: other.nodeIds ∧ path.edgeIds <+: other.edgeIds
  have hself : path ∈ above :=
    Finset.mem_filter.mpr ⟨List.mem_toFinset.mpr hpath, List.prefix_rfl, List.prefix_rfl⟩
  obtain ⟨longest, hmem, hmax⟩ :=
    Finset.exists_max_image above (fun other => other.edgeIds.length) ⟨path, hself⟩
  obtain ⟨hin, hnodes, hedges⟩ := Finset.mem_filter.mp hmem
  refine ⟨longest, mem_maximalPaths.mpr ⟨List.mem_toFinset.mp hin, ?_⟩, hnodes, hedges⟩
  intro other hother hext
  obtain ⟨hlt, hnodes', hedges'⟩ := extendsPath_iff.mp hext
  have hle := hmax other (Finset.mem_filter.mpr
    ⟨List.mem_toFinset.mpr hother, hnodes.trans hnodes', hedges.trans hedges'⟩)
  exact absurd hlt (Nat.not_lt.mpr hle)

/-- Between maximal paths a prefix is an equality. -/
theorem eq_of_prefix_of_mem_maximalPaths {paths : List Path} {path other : Path}
    (hpath : path ∈ maximalPaths paths) (hother : other ∈ maximalPaths paths)
    (hnodes : path.nodeIds <+: other.nodeIds) (hedges : path.edgeIds <+: other.edgeIds)
    (hlen : ∀ p ∈ paths, p.nodeIds.length = p.edgeIds.length + 1) : path = other := by
  obtain ⟨hmem, hmax⟩ := mem_maximalPaths.mp hpath
  have hmem' := (mem_maximalPaths.mp hother).1
  have hle := hedges.length_le
  have heq : path.edgeIds.length = other.edgeIds.length := by
    by_contra hne
    exact hmax other hmem' (extendsPath_iff.mpr ⟨by omega, hnodes, hedges⟩)
  have hlen1 := hlen path hmem
  have hlen2 := hlen other hmem'
  exact Path.ext (hnodes.eq_of_length (by omega)) (hedges.eq_of_length heq)

/-! ### The specification of chains -/

/-- Number of edges, then edge identifiers, then node identifiers. -/
def compareChains : ProofChain → ProofChain → Ordering :=
  compareLex (compareOn fun chain => chain.edgeIds.length)
    (compareLex (compareOn ProofChain.edgeIds) (compareOn ProofChain.nodeIds))

/-- A chain that is a route of active edges from the target to an anchor. -/
structure SoundChain (request : KernelRequest) (chain : ProofChain) : Prop where
  starts : chain.nodeIds.head? = some request.goal.targetId
  ends : ∃ id, chain.nodeIds.getLast? = some id ∧ Anchor request id
  length : chain.nodeIds.length = chain.edgeIds.length + 1
  nodup : chain.nodeIds.Nodup
  /-- The `i`-th edge identifier names an active edge from the `i`-th to the next node. -/
  link : ∀ i id, chain.edgeIds[i]? = some id →
    ∃ edge ∈ request.edges, edge.id = id ∧ edge.status = .current ∧ edge.kind ≠ .supersedes ∧
      chain.nodeIds[i]? = some edge.sourceId ∧ chain.nodeIds[i + 1]? = some edge.targetId ∧
      Active request edge.sourceId ∧ Active request edge.targetId

/-- **The chains of an established proof.** -/
structure ChainsSpec (request : KernelRequest) (chains : List ProofChain) : Prop where
  sound : ∀ chain ∈ chains, SoundChain request chain
  /-- Every anchor path, parallel edges counted separately, is a prefix of a chain. -/
  complete : ∀ nodeIds edges, AnchorPath request nodeIds edges →
    ∃ chain ∈ chains, nodeIds <+: chain.nodeIds ∧ edges.map (·.id) <+: chain.edgeIds
  /-- No chain is a proper prefix of another. -/
  maximal : ∀ chain ∈ chains, ∀ other ∈ chains, chain.nodeIds <+: other.nodeIds →
    chain.edgeIds <+: other.edgeIds → chain = other
  increasing : chains.Pairwise (fun a b => compareChains a b = .lt)

/-- The chain of an anchor path is sound. -/
theorem soundChain_of_path {path : Path} (hpath : IsActivePath request path)
    (hanchor : Anchor request path.lastId) : SoundChain request (proofChain path) := by
  obtain ⟨edges, hactive, hids⟩ := hpath
  have hlen := hactive.length_nodes
  refine ⟨hactive.head?_eq, ⟨_, path.getLast?_nodeIds, hanchor⟩, ?_, hactive.nodup, ?_⟩
  · show path.nodeIds.length = path.edgeIds.length + 1
    rw [hids, List.length_map, hlen]
  · intro i id hid
    have hedge : (edges.map (·.id))[i]? = some id := hids ▸ hid
    rw [List.getElem?_map, Option.map_eq_some_iff] at hedge
    obtain ⟨edge, hget, rfl⟩ := hedge
    have hactiveEdge := hactive.edges_mem edge (List.mem_of_getElem? hget)
    obtain ⟨hsource, htarget⟩ := hactive.link hget
    exact ⟨edge, hactiveEdge.mem, rfl, hactiveEdge.current, hactiveEdge.admissible, hsource,
      htarget, hactiveEdge.source, hactiveEdge.target⟩

theorem mem_proofChains {anchors : List Path} {chain : ProofChain} :
    chain ∈ (established anchors).proofChains ↔
      ∃ path ∈ maximalPaths anchors, proofChain path = chain := by
  simp [established]

/-- Chains drawn from the anchor paths of a request meet the specification. -/
theorem chainsSpec_established {anchors : List Path}
    (hmem : ∀ path, path ∈ anchors ↔ IsActivePath request path ∧ Anchor request path.lastId) :
    ChainsSpec request (established anchors).proofChains := by
  have hlen : ∀ path ∈ anchors, path.nodeIds.length = path.edgeIds.length + 1 := by
    intro path hpath
    obtain ⟨⟨edges, hactive, hids⟩, -⟩ := (hmem path).mp hpath
    rw [hids, List.length_map, hactive.length_nodes]
  constructor
  case sound =>
    intro chain hchain
    obtain ⟨path, hpath, rfl⟩ := mem_proofChains.mp hchain
    obtain ⟨hactive, hanchor⟩ := (hmem path).mp (mem_maximalPaths.mp hpath).1
    exact soundChain_of_path hactive hanchor
  case complete =>
    rintro nodeIds edges ⟨hactive, id, hlast, hanchor⟩
    let path : Path := ⟨nodeIds, edges.map (·.id), hactive.nodes_ne_nil⟩
    have hid : path.lastId = id := Option.some.inj (path.getLast?_nodeIds.symm.trans hlast)
    have hin : path ∈ anchors := (hmem path).mpr ⟨⟨edges, hactive, rfl⟩, hid.symm ▸ hanchor⟩
    -- a path that is not maximal is a start of a longer one that is kept
    obtain ⟨longest, hlongest, hnodes, hedges⟩ := exists_mem_maximalPaths hin
    exact ⟨proofChain longest, mem_proofChains.mpr ⟨longest, hlongest, rfl⟩, hnodes, hedges⟩
  case maximal =>
    intro chain hchain other hother hnodes hedges
    obtain ⟨path, hpath, rfl⟩ := mem_proofChains.mp hchain
    obtain ⟨path', hpath', rfl⟩ := mem_proofChains.mp hother
    rw [eq_of_prefix_of_mem_maximalPaths hpath hpath' hnodes hedges hlen]
  case increasing =>
    have hsorted : (sortUniq comparePaths (maximalPaths anchors)).Pairwise
        (fun a b => comparePaths a b = .lt) := sortUniq_pairwise _
    rw [established, List.pairwise_map]
    exact hsorted

/-- Chains depend on the set of anchor paths only. -/
theorem proofChains_congr {anchors anchors' : List Path}
    (h : ∀ path, path ∈ anchors ↔ path ∈ anchors') :
    (established anchors).proofChains = (established anchors').proofChains := by
  have hmaximal : ∀ path, path ∈ maximalPaths anchors ↔ path ∈ maximalPaths anchors' := by
    intro path
    simp only [mem_maximalPaths, h]
  have hsorted : sortUniq comparePaths (maximalPaths anchors) =
      sortUniq comparePaths (maximalPaths anchors') := by
    refine eq_of_pairwise_lt_of_mem_iff (sortUniq_pairwise _) (sortUniq_pairwise _) (fun path => ?_)
    rw [mem_sortUniq, mem_sortUniq, hmaximal]
  unfold established
  rw [hsorted]

/-- **Proof chains.** Every request that evaluates to an established proof gets exactly its maximal
    simple anchor paths, in canonical order. -/
theorem evaluate_chains {version : Int} {requestId snapshotId : String} {proof : ProofResult}
    (h : evaluate request = some (.proof version requestId snapshotId proof))
    (hverdict : proof.verdict = .established) : ChainsSpec request proof.proofChains := by
  obtain ⟨hv, traversal, ht, hproof⟩ := evaluate_eq_proof h
  have hspec := traversalOf_spec hv ht
  rcases proofOf_cases hv hspec (conflictsOf request traversal.reachable) with
    ⟨_, hcase⟩ | ⟨_, _, hcase⟩ | ⟨_, _, frontier, node, _, _, _, hcase⟩
  · obtain rfl := Option.some.inj (hproof.symm.trans hcase)
    cases hverdict
  · obtain rfl := Option.some.inj (hproof.symm.trans hcase)
    exact chainsSpec_established hspec.mem_anchors
  · obtain rfl := Option.some.inj (hproof.symm.trans hcase)
    simp only [incomplete] at hverdict
    split at hverdict <;> cases hverdict

/-- The chain that the sample request establishes. -/
def sampleProof : ProofResult where
  verdict := .established
  proofChains := [⟨["change", "item", "new"], ["e1", "e2"],
    ["edge.current", "path.admissible", "anchor.current"]⟩]
  gaps := []
  conflicts := []

/-- The sample request is established, and its chains meet the specification. -/
theorem evaluate_chains_sample :
    evaluate sampleRequest = some (.proof 1 "query" "snapshot" sampleProof) ∧
      ChainsSpec sampleRequest sampleProof.proofChains := by
  have h : evaluate sampleRequest = some (.proof 1 "query" "snapshot" sampleProof) := by
    decide
  exact ⟨h, evaluate_chains h rfl⟩

end Rationale.Kernel
