import Rationale.Kernel.Chains

namespace Rationale.Kernel

open Std Rationale.Library

/-!
# Input order is irrelevant

Two requests that list the same evidence in different orders get the same answer.

* `Reordered` — the same request with its lists permuted;
* `SameOutcome` — two validations that return the same, or fail with one error code;
* `validate_reordered` — the checks look at sets of records only;
* `activeEdgesOf_reordered`, `traversalOf_reordered`, `conflictsOf_reordered` — past the checks
  every intermediate result is literally the same;
* `evaluate_reordered` — hence the responses are.
-/

/-- The same request with nodes, edges, conflicts and anchor kinds in another order. -/
structure Reordered (request request' : KernelRequest) : Prop where
  protocolVersion : request.protocolVersion = request'.protocolVersion
  requestId : request.requestId = request'.requestId
  snapshotId : request.snapshotId = request'.snapshotId
  targetId : request.goal.targetId = request'.goal.targetId
  anchorKinds : request.goal.anchorKinds.Perm request'.goal.anchorKinds
  nodes : request.nodes.Perm request'.nodes
  edges : request.edges.Perm request'.edges
  conflicts : request.conflicts.Perm request'.conflicts

/-! ### Failing in the same way -/

/-- Both succeed with one value, or both fail with one error code. -/
def SameOutcome {α : Type} : Except Failure α → Except Failure α → Prop
  | .ok a, .ok b => a = b
  | .error failure, .error failure' => failure.1 = failure'.1
  | _, _ => False

section Checks

variable {α : Type} {rest rest' : Unit → Except Failure α}

/-- A check that both pass or both fail. -/
theorem sameOutcome_rejectIf {condition condition' : Prop} [Decidable condition]
    [Decidable condition'] (h : condition ↔ condition') {failure failure' : Failure}
    (hcode : failure.1 = failure'.1)
    (hrest : ¬ condition → ¬ condition' → SameOutcome (rest ()) (rest' ())) :
    SameOutcome (rejectIf condition failure >>= rest) (rejectIf condition' failure' >>= rest') := by
  unfold rejectIf
  by_cases hc : condition
  · rw [if_pos hc, if_pos (h.mp hc)]
    exact hcode
  · have hc' : ¬ condition' := fun hc' => hc (h.mpr hc')
    rw [if_neg hc, if_neg hc']
    exact hrest hc hc'

/-- A search that finds something in both or in neither. -/
theorem sameOutcome_rejectSome {β : Type} {found found' : Option β} (h : found = none ↔ found' = none)
    {failure failure' : β → Failure} (hcode : ∀ a b, (failure a).1 = (failure' b).1)
    (hrest : found = none → found' = none → SameOutcome (rest ()) (rest' ())) :
    SameOutcome (rejectSome found failure >>= rest) (rejectSome found' failure' >>= rest') := by
  cases found with
  | none =>
    obtain rfl := h.mp rfl
    exact hrest rfl rfl
  | some a =>
    cases found' with
    | none => exact nomatch h.mpr rfl
    | some b => exact hcode a b

end Checks

namespace Reordered

variable {request request' : KernelRequest} (h : Reordered request request')

include h

/-! ### Validation -/

theorem known_iff {id : String} : Known request id ↔ Known request' id := by
  unfold Known
  exact exists_congr (fun node => and_congr_left (fun _ => h.nodes.mem_iff))

/-- Without duplicate identifiers the node maps are the same. -/
theorem nodeMap_eq (hnodup : (request.nodes.map (·.id)).Nodup) :
    nodeMap request.nodes = nodeMap request'.nodes := by
  have hnodup' : (request'.nodes.map (·.id)).Nodup := (h.nodes.map _).nodup_iff.mp hnodup
  apply ExtTreeMap.ext_getElem?
  intro id
  apply Option.ext
  intro node
  unfold nodeMap
  rw [getElem?_indexBy_of_nodup hnodup, getElem?_indexBy_of_nodup hnodup', h.nodes.mem_iff]

/-- **The checks do not see the order.** -/
theorem validate_reordered : SameOutcome (validate request) (validate request') := by
  have hmem : ∀ id : String, id ∈ nodeMap request.nodes ↔ id ∈ nodeMap request'.nodes := by
    intro id
    rw [mem_nodeMap, mem_nodeMap, h.known_iff]
  unfold validate
  -- check by check, in the source's order: each reads the request up to reordering only
  apply sameOutcome_rejectIf
  · rw [h.protocolVersion]
  · rfl
  intro _ _
  apply sameOutcome_rejectIf
  · rw [h.nodes.length_eq]
  · rfl
  intro _ _
  apply sameOutcome_rejectIf
  · rw [h.edges.length_eq]
  · rfl
  intro _ _
  apply sameOutcome_rejectIf
  · rw [← List.length_eq_zero_iff, h.anchorKinds.length_eq, List.length_eq_zero_iff]
  · rfl
  intro _ _
  apply sameOutcome_rejectIf
  · exact exists_congr (fun kind => and_congr_left (fun _ => h.anchorKinds.mem_iff))
  · rfl
  intro _ _
  apply sameOutcome_rejectSome
  · rw [duplicate_eq_none_iff, duplicate_eq_none_iff, (h.nodes.map _).nodup_iff]
  · exact fun _ _ => rfl
  intro hnodup _
  apply sameOutcome_rejectSome
  · rw [duplicate_eq_none_iff, duplicate_eq_none_iff, (h.edges.map _).nodup_iff]
  · exact fun _ _ => rfl
  intro _ _
  apply sameOutcome_rejectIf
  · rw [hmem, h.targetId]
  · rfl
  intro _ _
  apply sameOutcome_rejectSome
  · simp only [List.find?_eq_none, hmem, h.edges.mem_iff]
  · exact fun _ _ => rfl
  intro _ _
  apply sameOutcome_rejectSome
  · simp only [List.find?_eq_none, hmem, h.conflicts.mem_iff]
  · exact fun _ _ => rfl
  intro _ _
  exact h.nodeMap_eq (duplicate_eq_none_iff.mp hnodup)

theorem validated_iff : Validated request ↔ Validated request' := by
  have hsame := h.validate_reordered
  constructor
  · intro hv
    rw [validate_eq_ok_iff.mpr ⟨hv, rfl⟩] at hsame
    cases hvalid' : validate request' with
    | error failure => rw [hvalid'] at hsame; exact absurd hsame id
    | ok nodes => exact (validate_eq_ok_iff.mp hvalid').1
  · intro hv
    rw [validate_eq_ok_iff.mpr ⟨hv, rfl⟩] at hsame
    cases hvalid : validate request with
    | error failure => rw [hvalid] at hsame; exact absurd hsame id
    | ok nodes => exact (validate_eq_ok_iff.mp hvalid).1

/-! ### The active graph -/

theorem superseded_iff {id : String} : Superseded request id ↔ Superseded request' id := by
  unfold Superseded
  simp only [h.edges.mem_iff, h.nodes.mem_iff]

section Validated

variable (hv : Validated request)

include hv

theorem supersededOf_reordered : supersededOf request = supersededOf request' := by
  apply ExtTreeSet.ext_mem
  intro id
  rw [mem_supersededOf hv, mem_supersededOf (h.validated_iff.mp hv), h.superseded_iff]

/-- Distinct identifiers make the order of active edges canonical. -/
theorem activeEdgesOf_reordered : activeEdgesOf request = activeEdgesOf request' := by
  unfold activeEdgesOf activeEdges
  rw [h.nodeMap_eq hv.nodes_nodup, h.supersededOf_reordered hv]
  refine sortBy_eq_of_perm (h.edges.filter _) (fun edge hedge other hother heq => ?_)
  have hid : edge.id = other.id := by
    simp only [compareEdges, compareLex, compareOn, Ordering.then_eq_eq, Std.compare_eq_iff_eq]
      at heq
    exact heq.2.2
  exact List.inj_on_of_nodup_map hv.edges_nodup (List.mem_filter.mp hedge).1
    (List.mem_filter.mp hother).1 hid

end Validated

end Reordered

/-- The loop uses a goal's anchor kinds only to tell anchors from other nodes. -/
theorem traverseLoop_congr {goal goal' : ProofGoal}
    (hgoal : ∀ node, isAnchor goal node = isAnchor goal' node) {nodes : NodeMap}
    {superseded : StringSet} {outgoing : StringMap (List EvidenceEdge)} {budget : Nat}
    {queue paths anchors : List Path} {reachable : StringSet} :
    traverseLoop goal nodes superseded outgoing budget queue paths anchors reachable =
      traverseLoop goal' nodes superseded outgoing budget queue paths anchors reachable := by
  induction budget generalizing queue paths anchors reachable with
  | zero =>
    cases queue with
    | nil => simp only [traverseLoop]
    | cons path queue => simp only [traverseLoop]
  | succ budget ih =>
    cases queue with
    | nil => simp only [traverseLoop]
    | cons path queue => simp only [traverseLoop, hgoal, ih]

namespace Reordered

variable {request request' : KernelRequest} (h : Reordered request request')
  (hv : Validated request)

include h hv

theorem traversalOf_reordered : traversalOf request = traversalOf request' := by
  have hanchor : ∀ node, isAnchor request.goal node = isAnchor request'.goal node := by
    intro node
    rw [Bool.eq_iff_iff, isAnchor_iff, isAnchor_iff, h.anchorKinds.mem_iff]
  have hroot : rootPath request.goal = rootPath request'.goal :=
    Path.ext (congrArg (fun id => [id]) h.targetId) rfl
  unfold traversalOf traverse
  rw [h.nodeMap_eq hv.nodes_nodup, h.supersededOf_reordered hv, h.activeEdgesOf_reordered hv, hroot]
  exact traverseLoop_congr hanchor

theorem conflictsOf_reordered (reachable : StringSet) :
    conflictsOf request reachable = conflictsOf request' reachable := by
  unfold conflictsOf materialConflicts normalizeConflicts
  rw [h.nodeMap_eq hv.nodes_nodup, h.supersededOf_reordered hv]
  refine sortUniq_congr (fun conflict => ?_)
  simp only [List.mem_filter, List.mem_append, h.conflicts.mem_iff]

end Reordered

/-! ### Responses -/

/-- **Input order is irrelevant.** Requests that differ in the order of their nodes, edges,
    conflicts and anchor kinds get one and the same proof response, or errors with one code. -/
theorem evaluate_reordered {request request' : KernelRequest} (h : Reordered request request') :
    (∃ version requestId snapshotId proof,
      evaluate request = some (.proof version requestId snapshotId proof) ∧
      evaluate request' = some (.proof version requestId snapshotId proof)) ∨
    ∃ version requestId error error',
      evaluate request = some (.error version requestId error) ∧
      evaluate request' = some (.error version requestId error') ∧ error.code = error'.code := by
  have hsame := h.validate_reordered
  cases hvalid : validate request with
  | error failure =>
    -- a failed check: only the message may name another record
    rw [hvalid] at hsame
    cases hvalid' : validate request' with
    | ok nodes => rw [hvalid'] at hsame; exact absurd hsame id
    | error failure' =>
      rw [hvalid'] at hsame
      have hleft : evaluate request = some (protocolError request failure) := by
        simp only [evaluate, hvalid]
      have hright : evaluate request' = some (protocolError request' failure') := by
        simp only [evaluate, hvalid']
      unfold protocolError at hleft hright
      rw [← h.requestId] at hright
      exact Or.inr ⟨1, request.requestId, _, _, hleft, hright, hsame⟩
  | ok nodes =>
    obtain ⟨hv, rfl⟩ := validate_eq_ok_iff.mp hvalid
    have hv' := h.validated_iff.mp hv
    have htraversal := h.traversalOf_reordered hv
    cases ht : traversalOf request with
    | error failure =>
      -- the path-state limit: both traversals are one
      obtain rfl := traversalOf_error hv ht
      have hleft := evaluate_of_traversal_error hv ht
      have hright := evaluate_of_traversal_error hv' (htraversal.symm.trans ht)
      rw [← h.requestId] at hright
      exact Or.inr ⟨1, request.requestId, _, _, hleft, hright, rfl⟩
    | ok traversal =>
      obtain ⟨proof, hproof, -⟩ := verdictSpec_of_traversal hv ht
      have hright : evaluate request' = evaluate request := by
        rw [evaluate_of_traversal hv ht, evaluate_of_traversal hv' (htraversal.symm.trans ht),
          h.conflictsOf_reordered hv, h.nodeMap_eq hv.nodes_nodup, h.requestId, h.snapshotId]
      exact Or.inl ⟨1, request.requestId, request.snapshotId, proof, hproof, hright.trans hproof⟩

/-- The sample request, read backwards. -/
def reversedRequest : KernelRequest where
  protocolVersion := 1
  requestId := "query"
  snapshotId := "snapshot"
  goal := ⟨"change", [.workItem, .decision]⟩
  nodes := sampleRequest.nodes.reverse
  edges := sampleRequest.edges.reverse
  conflicts := []

theorem reordered_reversedRequest : Reordered sampleRequest reversedRequest where
  protocolVersion := rfl
  requestId := rfl
  snapshotId := rfl
  targetId := rfl
  anchorKinds := List.Perm.swap _ _ _
  nodes := (List.reverse_perm _).symm
  edges := (List.reverse_perm _).symm
  conflicts := List.Perm.refl _

/-- Read backwards, the sample request gets the same proof. -/
theorem evaluate_reordered_sample :
    ∃ version requestId snapshotId proof,
      evaluate sampleRequest = some (.proof version requestId snapshotId proof) ∧
      evaluate reversedRequest = some (.proof version requestId snapshotId proof) := by
  rcases evaluate_reordered reordered_reversedRequest with hproof | ⟨_, _, _, _, herror, -, -⟩
  · exact hproof
  · have hok : (traversalOf sampleRequest).isOk = true := by decide
    have hvalid : validate sampleRequest = .ok (nodeMap sampleRequest.nodes) := by rfl
    cases ht : traversalOf sampleRequest with
    | error failure => rw [ht] at hok; exact nomatch hok
    | ok traversal =>
      obtain ⟨proof, hproof, -⟩ :=
        verdictSpec_of_traversal (validate_eq_ok_iff.mp hvalid).1 ht
      rw [hproof] at herror
      exact nomatch herror

end Rationale.Kernel
