import Mathlib.Data.String.Basic
import Rationale.Kernel.Traversal

namespace Rationale.Kernel

open Std Relation Rationale.Library

/-!
# The verdict decides the active evidence graph

* `evaluate_of_traversal` — after `validate` and a finished traversal, `evaluate` returns the
  proof drawn from that traversal; no OCaml exception is reached;
* `VerdictSpec` — the meaning of a proof result in terms of `ActiveGraph.lean`;
* `evaluate_verdict` — every validated request whose traversal stays within the path-state limit
  gets a proof response that meets `VerdictSpec`.
-/

section Conflicts

variable {request : KernelRequest} (hv : Validated request)

/-- The conflicts `evaluate` finds, before it looks at their number. -/
def conflictsOf (request : KernelRequest) (reachable : StringSet) : List Conflict :=
  materialConflicts reachable (supersededOf request) (nodeMap request.nodes)
    (request.conflicts ++ structuredConflicts (nodeMap request.nodes) (supersededOf request))

theorem disagree_iff {left right : EvidenceNode} :
    disagree left right = true ↔ left.id < right.id ∧ left.subjectId = right.subjectId ∧
      left.outcomeId ≠ right.outcomeId := by
  have hlt : compare left.id right.id = .lt ↔ left.id < right.id := compareOfLessAndEq_eq_lt
  simp [disagree, hlt, and_assoc]

include hv

theorem mem_structuredConflicts {conflict : Conflict} :
    conflict ∈ structuredConflicts (nodeMap request.nodes) (supersededOf request) ↔
      ∃ left right, (ActiveNode request left ∧ left.kind = .decision ∧ left.subjectId.isSome ∧
        left.outcomeId.isSome) ∧ (ActiveNode request right ∧ right.kind = .decision ∧
        right.subjectId.isSome ∧ right.outcomeId.isSome) ∧ disagree left right = true ∧
        conflict = ⟨left.id, right.id, "conflict.subject_outcome"⟩ := by
  -- the candidates are the active decisions with a subject and an outcome
  have hdecision : ∀ node : EvidenceNode,
      node ∈ ((nodeMap request.nodes).toList.map (·.2)).filter (fun node =>
        activeNode (supersededOf request) node && node.kind = .decision
          && node.subjectId.isSome && node.outcomeId.isSome) ↔
      ActiveNode request node ∧ node.kind = .decision ∧ node.subjectId.isSome ∧
        node.outcomeId.isSome := by
    intro node
    have hmem : node ∈ (nodeMap request.nodes).toList.map (·.2) ↔ node ∈ request.nodes := by
      show node ∈ values (nodeMap request.nodes) ↔ _
      rw [mem_values]
      simp [hv.getElem?_nodeMap]
    rw [List.mem_filter, hmem, Bool.and_eq_true, Bool.and_eq_true, Bool.and_eq_true,
      decide_eq_true_eq, and_assoc, and_assoc]
    constructor
    · rintro ⟨hnode, hactive, hrest⟩
      exact ⟨(activeNode_iff hv hnode).mp hactive, hrest⟩
    · rintro ⟨hactive, hrest⟩
      exact ⟨hactive.mem, (activeNode_iff hv hactive.mem).mpr hactive, hrest⟩
  unfold structuredConflicts
  simp only [List.mem_flatMap, List.mem_filterMap, hdecision]
  constructor
  · rintro ⟨left, hleft, right, hright, h⟩
    split at h
    · rename_i hdis
      exact ⟨left, right, hleft, hright, hdis, (Option.some.inj h).symm⟩
    · exact nomatch h
  · rintro ⟨left, right, hleft, hright, hdis, rfl⟩
    exact ⟨left, hleft, right, hright, if_pos hdis⟩

/-- **Material conflicts.** Over the reachable set, `materialConflicts` keeps exactly the explicit
    and structured conflicts whose ends are active and reachable. -/
theorem mem_conflictsOf {reachable : StringSet}
    (hreach : ∀ id, id ∈ reachable ↔ Reachable request id) {conflict : Conflict} :
    conflict ∈ conflictsOf request reachable ↔ MaterialConflict request conflict := by
  simp only [conflictsOf, materialConflicts, normalizeConflicts, mem_sortUniq, List.mem_filter,
    List.mem_append, Bool.and_eq_true, activeId_iff hv, ExtTreeSet.contains_iff_mem, hreach,
    mem_structuredConflicts hv]
  constructor
  · rintro ⟨hmem | ⟨left, right, hl, hr, hdis, rfl⟩, ⟨⟨hreachl, hreachr⟩, hactl⟩, hactr⟩
    · exact .explicit hmem ⟨hactl, hreachl⟩ ⟨hactr, hreachr⟩
    · obtain ⟨hlt, hsubject, houtcome⟩ := disagree_iff.mp hdis
      obtain ⟨subject, hs⟩ := Option.isSome_iff_exists.mp hl.2.2.1
      obtain ⟨outcome, ho⟩ := Option.isSome_iff_exists.mp hl.2.2.2
      obtain ⟨outcome', ho'⟩ := Option.isSome_iff_exists.mp hr.2.2.2
      refine .outcomes hl.1 hr.1 hreachl hreachr hl.2.1 hr.2.1 hs (hsubject ▸ hs) ho ho' ?_ hlt
      rintro rfl
      exact houtcome (ho.trans ho'.symm)
  · intro h
    cases h with
    | explicit hmem hleft hright =>
      exact ⟨Or.inl hmem, ⟨⟨hleft.2, hright.2⟩, hleft.1⟩, hright.1⟩
    | @outcomes left right subject outcome outcome' hla hra hlr hrr hlk hrk hls hrs hlo hro hne
        hlt =>
      refine ⟨Or.inr ⟨left, right, ⟨hla, hlk, by simp [hls], by simp [hlo]⟩,
        ⟨hra, hrk, by simp [hrs], by simp [hro]⟩, ?_, rfl⟩, ⟨⟨hlr, hrr⟩, ⟨left, hla, rfl⟩⟩,
        ⟨right, hra, rfl⟩⟩
      exact disagree_iff.mpr ⟨hlt, hls.trans hrs.symm, by rw [hlo, hro]; simpa using hne⟩

end Conflicts

/-! ### The frontier of an incomplete proof -/

instance : TransCmp compareDepth :=
  inferInstanceAs (TransCmp (compareLex (fun left right : Path =>
    compareOn (fun path : Path => path.edgeIds.length) right left) _))

/-- No path of the list is longer than the deepest one, and equally long ones do not come before
    it in node order. -/
theorem deepestPath_spec {paths : List Path} {path : Path} (h : deepestPath paths = some path) :
    path ∈ paths ∧ ∀ other ∈ paths, other.edgeIds.length ≤ path.edgeIds.length ∧
      (other.edgeIds.length = path.edgeIds.length →
        (compare path.nodeIds other.nodeIds).isLE) := by
  refine ⟨mem_sortBy.mp (List.mem_of_head? h), fun other hother => ?_⟩
  have hle : (compareDepth path other).isLE := head?_sortBy_isLE h hother
  rw [compareDepth, compareLex, compareOn] at hle
  constructor
  · by_contra hlt
    rw [Nat.compare_eq_gt.mpr (by omega)] at hle
    exact nomatch hle
  · intro heq
    rw [Nat.compare_eq_eq.mpr heq] at hle
    exact hle

theorem deepestPath_isSome {paths : List Path} (h : paths ≠ []) :
    ∃ path, deepestPath paths = some path := by
  rw [deepestPath]
  cases hs : sortBy compareDepth paths with
  | nil => exact absurd ((hs ▸ sortBy_perm paths).nil_eq).symm h
  | cons path rest => exact ⟨path, rfl⟩

/-- The deepest active path of a request: no active path is longer, and none of its length has
    smaller node identifiers. -/
structure Frontier (request : KernelRequest) (nodeIds : List String)
    (edges : List EvidenceEdge) : Prop where
  path : ActivePath request nodeIds edges
  deepest : ∀ nodeIds' edges', ActivePath request nodeIds' edges' →
    edges'.length ≤ edges.length ∧
      (edges'.length = edges.length → (compare nodeIds nodeIds').isLE)

/-! ### The verdict -/

/-- **What a proof result says about its request.** -/
structure VerdictSpec (request : KernelRequest) (proof : ProofResult) : Prop where
  /-- (a) conflicted iff there is a material conflict … -/
  conflicted_iff : proof.verdict = .conflicted ↔ ∃ conflict, MaterialConflict request conflict
  /-- … and the conflicts returned are exactly those … -/
  mem_conflicts : ∀ conflict, conflict ∈ proof.conflicts ↔ MaterialConflict request conflict
  /-- … in strictly increasing (left, right, rule) order. -/
  conflicts_sorted : proof.conflicts.Pairwise (fun a b => compareConflicts a b = .lt)
  /-- (b) otherwise established iff an anchor is reachable. -/
  established_iff : (¬ ∃ conflict, MaterialConflict request conflict) →
    (proof.verdict = .established ↔ ∃ id, Reachable request id ∧ Anchor request id)
  /-- (c) otherwise partial when some active edge leads on from the target, and not established
      when none does, with the gap at the end of the deepest active path. -/
  incomplete : (¬ ∃ conflict, MaterialConflict request conflict) →
    (¬ ∃ id, Reachable request id ∧ Anchor request id) →
    (proof.verdict = .partialProof ↔ ∃ id, id ≠ request.goal.targetId ∧ Reachable request id) ∧
    (proof.verdict = .notEstablished ↔ ∀ id, Reachable request id → id = request.goal.targetId) ∧
    ∃ nodeIds edges, Frontier request nodeIds edges ∧
      ∃ node ∈ request.nodes, nodeIds.getLast? = some node.id ∧ proof.gaps = [gapFor node]

/-- The traversal of the request runs out of path states. -/
def HitsPathStateLimit (request : KernelRequest) : Prop :=
  traversalOf request = .error pathStateLimit

section Evaluate

variable {request : KernelRequest}

/-- The known end of an active path. -/
theorem IsActivePath.exists_node (hv : Validated request) {path : Path}
    (h : IsActivePath request path) :
    ∃ node ∈ request.nodes, (nodeMap request.nodes)[path.lastId]? = some node ∧
      node.id = path.lastId := by
  obtain ⟨edges, hpath, _⟩ := h
  have hreach : Reachable request path.lastId :=
    reachable_iff_activePath.mpr ⟨_, _, hpath, path.getLast?_nodeIds⟩
  have hknown : Known request path.lastId := by
    by_cases htarget : path.lastId = request.goal.targetId
    · rw [htarget]; exact hv.target_known
    · obtain ⟨node, hactive, hid⟩ := hreach.active_of_ne htarget
      exact ⟨node, hactive.mem, hid⟩
  obtain ⟨node, hmem, hid⟩ := hknown
  exact ⟨node, hmem, hv.getElem?_nodeMap.mpr ⟨hmem, hid⟩, hid⟩

/-- The single-node path is among the active paths. -/
theorem isActivePath_rootPath : IsActivePath request (rootPath request.goal) :=
  ⟨[], SimplePath.root, rfl⟩

/-- After a finished traversal `evaluate` returns the proof drawn from it. -/
theorem evaluate_of_traversal (hv : Validated request) {traversal : Traversal}
    (ht : traversalOf request = .ok traversal) :
    evaluate request =
      (proofOf (nodeMap request.nodes) traversal (conflictsOf request traversal.reachable)).map
        (KernelResponse.proof 1 request.requestId request.snapshotId) := by
  have hvalid : validate request = .ok (nodeMap request.nodes) :=
    validate_eq_ok_iff.mpr ⟨hv, rfl⟩
  rw [traversalOf, activeEdgesOf, supersededOf] at ht
  simp only [evaluate, hvalid, ht]
  rfl

/-- A traversal that fails makes `evaluate` return its error. -/
theorem evaluate_of_traversal_error (hv : Validated request) {failure : Failure}
    (ht : traversalOf request = .error failure) :
    evaluate request = some (.error 1 request.requestId ⟨failure.1, failure.2⟩) := by
  have hvalid : validate request = .ok (nodeMap request.nodes) :=
    validate_eq_ok_iff.mpr ⟨hv, rfl⟩
  rw [traversalOf, activeEdgesOf, supersededOf] at ht
  simp only [evaluate, hvalid, ht, protocolError]

/-- A proof drawn from a finished traversal always exists: one of the three cases applies. -/
theorem proofOf_cases (hv : Validated request) {traversal : Traversal}
    (hspec : TraversalSpec request traversal) (conflicts : List Conflict) :
    (conflicts ≠ [] ∧ proofOf (nodeMap request.nodes) traversal conflicts
      = some (conflicted conflicts)) ∨
    (conflicts = [] ∧ traversal.anchors ≠ [] ∧ proofOf (nodeMap request.nodes) traversal conflicts
      = some (established traversal.anchors)) ∨
    (conflicts = [] ∧ traversal.anchors = [] ∧ ∃ frontier node,
      deepestPath traversal.paths = some frontier ∧ node ∈ request.nodes ∧
      node.id = frontier.lastId ∧ proofOf (nodeMap request.nodes) traversal conflicts
        = some (incomplete frontier node)) := by
  by_cases hc : conflicts = []
  · subst hc
    by_cases ha : traversal.anchors = []
    · have hne : traversal.paths ≠ [] :=
        List.ne_nil_of_mem ((hspec.mem_paths _).mpr isActivePath_rootPath)
      obtain ⟨frontier, hfrontier⟩ := deepestPath_isSome hne
      have hpath := (hspec.mem_paths _).mp (deepestPath_spec hfrontier).1
      obtain ⟨node, hmem, hnode, hid⟩ := hpath.exists_node hv
      refine Or.inr (Or.inr ⟨rfl, ha, frontier, node, hfrontier, hmem, hid, ?_⟩)
      simp [proofOf, ha, hfrontier, hnode]
    · exact Or.inr (Or.inl ⟨rfl, ha, by simp [proofOf, ha]⟩)
  · exact Or.inl ⟨hc, by simp [proofOf, hc]⟩

/-- The traversal recorded an anchor path iff an anchor is reachable. -/
theorem anchors_ne_nil_iff {traversal : Traversal} (hspec : TraversalSpec request traversal) :
    traversal.anchors ≠ [] ↔ ∃ id, Reachable request id ∧ Anchor request id := by
  constructor
  · intro h
    obtain ⟨path, hpath⟩ := List.exists_mem_of_ne_nil _ h
    obtain ⟨⟨edges, hactive, _⟩, hanchor⟩ := (hspec.mem_anchors path).mp hpath
    exact ⟨path.lastId,
      reachable_iff_activePath.mpr ⟨_, _, hactive, path.getLast?_nodeIds⟩, hanchor⟩
  · rintro ⟨id, hreach, hanchor⟩
    obtain ⟨nodeIds, edges, hactive, hlast⟩ := reachable_iff_activePath.mp hreach
    have hid : (⟨nodeIds, edges.map (·.id), hactive.nodes_ne_nil⟩ : Path).lastId = id :=
      Option.some.inj ((Path.getLast?_nodeIds _).symm.trans hlast)
    exact List.ne_nil_of_mem ((hspec.mem_anchors _).mpr
      ⟨⟨edges, hactive, rfl⟩, by rw [hid]; exact hanchor⟩)

/-- The deepest path has an edge iff something besides the target is reachable. -/
theorem Frontier.edges_ne_nil_iff {nodeIds : List String} {edges : List EvidenceEdge}
    (h : Frontier request nodeIds edges) :
    edges ≠ [] ↔ ∃ id, id ≠ request.goal.targetId ∧ Reachable request id := by
  constructor
  · intro hne
    obtain ⟨id, hlast⟩ : ∃ id, nodeIds.getLast? = some id :=
      ⟨_, List.getLast?_eq_some_getLast h.path.nodes_ne_nil⟩
    refine ⟨id, ?_, reachable_iff_activePath.mpr ⟨_, _, h.path, hlast⟩⟩
    rintro rfl
    exact h.path.getLast?_ne_root hne hlast
  · rintro ⟨id, hne, hreach⟩ rfl
    obtain ⟨nodeIds', edges', hpath, hlast⟩ := reachable_iff_activePath.mp hreach
    have hlen := (h.deepest _ _ hpath).1
    obtain rfl : edges' = [] := List.length_eq_zero_iff.mp (by simpa using hlen)
    rw [hpath.nodes_of_nil, List.getLast?_singleton] at hlast
    exact hne (Option.some.inj hlast).symm

/-! ### The three shapes of a proof result -/

section Shapes

variable {conflicts : List Conflict} {anchors : List Path} {frontier : Path} {node : EvidenceNode}
  {edges : List EvidenceEdge}

theorem verdictSpec_conflicted
    (hmem : ∀ conflict, conflict ∈ conflicts ↔ MaterialConflict request conflict)
    (hex : ∃ conflict, MaterialConflict request conflict) :
    VerdictSpec request (conflicted conflicts) where
  conflicted_iff := ⟨fun _ => hex, fun _ => rfl⟩
  mem_conflicts conflict := by
    rw [← hmem]
    exact mem_sortUniq
  conflicts_sorted := sortUniq_pairwise _
  established_iff h := absurd hex h
  incomplete h := absurd hex h

theorem verdictSpec_established (hno : ¬ ∃ conflict, MaterialConflict request conflict)
    (hex : ∃ id, Reachable request id ∧ Anchor request id) :
    VerdictSpec request (established anchors) where
  conflicted_iff := ⟨(nomatch ·), fun h => absurd h hno⟩
  mem_conflicts conflict := ⟨(nomatch ·), fun h => absurd ⟨conflict, h⟩ hno⟩
  conflicts_sorted := List.Pairwise.nil
  established_iff _ := ⟨fun _ => hex, fun _ => rfl⟩
  incomplete _ h := absurd hex h

theorem verdictSpec_incomplete (hno : ¬ ∃ conflict, MaterialConflict request conflict)
    (hnone : ¬ ∃ id, Reachable request id ∧ Anchor request id)
    (hfront : Frontier request frontier.nodeIds edges) (hids : frontier.edgeIds = edges.map (·.id))
    (hnode : node ∈ request.nodes) (hid : node.id = frontier.lastId) :
    VerdictSpec request (incomplete frontier node) := by
  have hverdict : (incomplete frontier node).verdict =
      if edges = [] then .notEstablished else .partialProof := by
    simp [incomplete, hids]
  -- the deepest path has an edge exactly when something else is reached
  have hiff := hfront.edges_ne_nil_iff
  constructor
  case conflicted_iff =>
    refine ⟨fun h => ?_, fun h => absurd h hno⟩
    rw [hverdict] at h
    split at h <;> exact nomatch h
  case mem_conflicts => exact fun conflict => ⟨(nomatch ·), fun h => absurd ⟨conflict, h⟩ hno⟩
  case conflicts_sorted => exact List.Pairwise.nil
  case established_iff =>
    refine fun _ => ⟨fun h => ?_, fun h => absurd h hnone⟩
    rw [hverdict] at h
    split at h <;> exact nomatch h
  case incomplete =>
    refine fun _ _ => ⟨?_, ?_, frontier.nodeIds, edges, hfront, node, hnode, ?_, rfl⟩
    · rw [hverdict, ← hiff]
      by_cases hedges : edges = [] <;> simp [hedges]
    · rw [hverdict]
      by_cases hedges : edges = []
      · simp only [hedges, if_true, true_iff]
        intro id hreach
        by_contra hne
        exact hiff.mpr ⟨id, hne, hreach⟩ hedges
      · obtain ⟨id, hne, hreach⟩ := hiff.mp hedges
        simp only [hedges, if_false, reduceCtorEq, false_iff, not_forall]
        exact ⟨id, hreach, hne⟩
    · rw [frontier.getLast?_nodeIds, hid]

end Shapes

/-- The deepest path of a finished traversal is a frontier of the request. -/
theorem frontier_of_deepestPath {traversal : Traversal} (hspec : TraversalSpec request traversal)
    {frontier : Path} (h : deepestPath traversal.paths = some frontier) :
    ∃ edges, Frontier request frontier.nodeIds edges ∧ frontier.edgeIds = edges.map (·.id) := by
  obtain ⟨hpaths, hdeepest⟩ := deepestPath_spec h
  obtain ⟨edges, hpath, hids⟩ := (hspec.mem_paths _).mp hpaths
  refine ⟨edges, ⟨hpath, fun nodeIds' edges' hpath' => ?_⟩, hids⟩
  have hle := hdeepest ⟨nodeIds', edges'.map (·.id), hpath'.nodes_ne_nil⟩
    ((hspec.mem_paths _).mpr ⟨edges', hpath', rfl⟩)
  simpa [hids] using hle

/-- A finished traversal yields a proof response that meets the specification. -/
theorem verdictSpec_of_traversal (hv : Validated request) {traversal : Traversal}
    (ht : traversalOf request = .ok traversal) :
    ∃ proof, evaluate request = some (.proof 1 request.requestId request.snapshotId proof) ∧
      VerdictSpec request proof := by
  have hspec := traversalOf_spec hv ht
  have hmem : ∀ conflict, conflict ∈ conflictsOf request traversal.reachable ↔
      MaterialConflict request conflict := fun _ => mem_conflictsOf hv hspec.mem_reachable
  have hnil : conflictsOf request traversal.reachable = [] ↔
      ¬ ∃ conflict, MaterialConflict request conflict := by
    rw [List.eq_nil_iff_forall_not_mem, not_exists]
    exact forall_congr' (fun conflict => not_congr (hmem conflict))
  have hanchors := anchors_ne_nil_iff hspec
  rw [evaluate_of_traversal hv ht]
  rcases proofOf_cases hv hspec (conflictsOf request traversal.reachable) with
    ⟨hne, hproof⟩ | ⟨heq, hne, hproof⟩ | ⟨heq, hnone, frontier, node, hfrontier, hnode, hid, hproof⟩
  · rw [hproof]
    exact ⟨_, rfl, verdictSpec_conflicted hmem (not_not.mp (fun h => hne (hnil.mpr h)))⟩
  · rw [hproof]
    exact ⟨_, rfl, verdictSpec_established (hnil.mp heq) (hanchors.mp hne)⟩
  · rw [hproof]
    obtain ⟨edges, hfront, hids⟩ := frontier_of_deepestPath hspec hfrontier
    exact ⟨_, rfl, verdictSpec_incomplete (hnil.mp heq) (fun h => hanchors.mpr h hnone) hfront hids
      hnode hid⟩

/-- **Verdict correctness.** A request that passes `validate`, and whose traversal stays within the
    path-state limit, gets a proof response with its own identifiers, and the proof decides the
    active evidence graph. -/
theorem evaluate_verdict {nodes : NodeMap} (hvalid : validate request = .ok nodes)
    (hlimit : ¬ HitsPathStateLimit request) :
    ∃ proof, evaluate request = some (.proof 1 request.requestId request.snapshotId proof) ∧
      VerdictSpec request proof := by
  obtain ⟨hv, -⟩ := validate_eq_ok_iff.mp hvalid
  cases ht : traversalOf request with
  | error failure => exact absurd (ht.trans (congrArg _ (traversalOf_error hv ht))) hlimit
  | ok traversal => exact verdictSpec_of_traversal hv ht

/-- A change that resolves a work item, documented by a decision and by a superseded one. -/
def sampleRequest : KernelRequest where
  protocolVersion := 1
  requestId := "query"
  snapshotId := "snapshot"
  goal := ⟨"change", [.decision, .workItem]⟩
  nodes :=
    [⟨"change", .change, .current, none, none, sampleOrigin⟩,
      ⟨"item", .workItem, .current, none, none, sampleOrigin⟩,
      ⟨"new", .decision, .current, some "retry", some "twice", sampleOrigin⟩,
      ⟨"old", .decision, .current, some "retry", some "never", sampleOrigin⟩]
  edges :=
    [⟨"e1", .resolvesIssue, "change", "item", .current, sampleOrigin⟩,
      ⟨"e2", .documents, "item", "new", .current, sampleOrigin⟩,
      ⟨"e3", .documents, "item", "old", .current, sampleOrigin⟩,
      ⟨"e4", .supersedes, "new", "old", .current, sampleOrigin⟩]
  conflicts := []
where
  sampleOrigin : Origin := ⟨.synthetic, "fixture", none, none⟩

/-- The sample request meets both conditions of `evaluate_verdict`. -/
theorem evaluate_verdict_sample :
    ∃ proof, evaluate sampleRequest = some (.proof 1 "query" "snapshot" proof) ∧
      VerdictSpec sampleRequest proof := by
  have hvalid : validate sampleRequest = .ok (nodeMap sampleRequest.nodes) := by rfl
  have hok : (traversalOf sampleRequest).isOk = true := by decide
  exact evaluate_verdict hvalid (fun h => absurd hok (by rw [h]; decide))

end Evaluate

end Rationale.Kernel
