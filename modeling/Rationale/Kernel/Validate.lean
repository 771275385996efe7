import Rationale.Kernel.Evaluator
import Rationale.Kernel.ActiveGraph

namespace Rationale.Kernel

open Std Rationale.Library

/-!
# What `validate` guarantees

`validate_eq_ok_iff` inverts `validate` once: a request passes iff it is `Validated`, and the map
returned is the node map.  Later modules never unfold `validate` again.
-/

/-- The identifier names a node of the request. -/
def Known (request : KernelRequest) (id : String) : Prop := ∃ node ∈ request.nodes, node.id = id

/-- A request within the kernel's bounds, with distinct identifiers and closed references. -/
structure Validated (request : KernelRequest) : Prop where
  version : request.protocolVersion = 1
  node_limit : request.nodes.length ≤ maxNodes
  edge_limit : request.edges.length ≤ maxEdges
  anchors_ne : request.goal.anchorKinds ≠ []
  anchors_valid : ∀ kind ∈ request.goal.anchorKinds, validAnchorKind kind = true
  nodes_nodup : (request.nodes.map (·.id)).Nodup
  edges_nodup : (request.edges.map (·.id)).Nodup
  target_known : Known request request.goal.targetId
  edges_known : ∀ edge ∈ request.edges, Known request edge.sourceId ∧ Known request edge.targetId
  conflicts_known : ∀ conflict ∈ request.conflicts,
    Known request conflict.leftNodeId ∧ Known request conflict.rightNodeId

/-- On a sorted list, no adjacent repetition means no repetition. -/
theorem findDuplicate_eq_none_iff {values : List String}
    (h : values.Pairwise (fun a b => (compare a b).isLE)) :
    findDuplicate values = none ↔ values.Nodup := by
  fun_induction findDuplicate values with
  | case1 left rest => simp
  | case2 left right rest hne ih =>
    obtain ⟨hleft, htail⟩ := List.pairwise_cons.mp h
    rw [ih htail, List.nodup_cons (a := left)]
    refine ⟨fun hnodup => ⟨fun hmem => hne ?_, hnodup⟩, fun hnodup => hnodup.2⟩
    -- `left` cannot come back later: everything after `right` is at least `right`.
    have hright : (compare right left).isLE := by
      rcases List.mem_cons.mp hmem with rfl | hmem
      · exact hleft _ List.mem_cons_self
      · exact (List.pairwise_cons.mp htail).1 left hmem
    have hle : (compare left right).isLE := hleft right List.mem_cons_self
    exact LawfulEqCmp.eq_of_compare (OrientedCmp.isLE_antisymm hle hright)
  | case3 values hshort =>
    cases values with
    | nil => simp
    | cons a rest =>
      cases rest with
      | nil => simp
      | cons b rest => exact absurd rfl (hshort a b rest)

theorem duplicate_eq_none_iff {values : List String} :
    duplicate values = none ↔ values.Nodup := by
  rw [duplicate, findDuplicate_eq_none_iff (sortBy_pairwise values)]
  exact (sortBy_perm values).nodup_iff

@[simp] theorem mem_nodeMap {request : KernelRequest} {id : String} :
    id ∈ nodeMap request.nodes ↔ Known request id := mem_indexBy

/-- A passed check, read off the sequence it heads. -/
theorem rejectIf_bind_eq_ok {α : Type} {condition : Prop} [Decidable condition]
    {failure : Failure} {rest : Unit → Except Failure α} {a : α} :
    (rejectIf condition failure >>= rest) = .ok a ↔ ¬ condition ∧ rest () = .ok a := by
  unfold rejectIf
  by_cases h : condition
  · rw [if_pos h]
    exact ⟨(nomatch ·), fun hok => absurd h hok.1⟩
  · rw [if_neg h]
    exact ⟨fun hok => ⟨h, hok⟩, fun hok => hok.2⟩

theorem rejectSome_bind_eq_ok {α β : Type} {found : Option β} {failure : β → Failure}
    {rest : Unit → Except Failure α} {a : α} :
    (rejectSome found failure >>= rest) = .ok a ↔ found = none ∧ rest () = .ok a := by
  cases found with
  | some item => exact ⟨(nomatch ·), fun hok => nomatch hok.1⟩
  | none => exact ⟨fun hok => ⟨rfl, hok⟩, fun hok => hok.2⟩

/-- **Inversion of `validate`.** -/
theorem validate_eq_ok_iff {request : KernelRequest} {nodes : NodeMap} :
    validate request = .ok nodes ↔ Validated request ∧ nodes = nodeMap request.nodes := by
  simp only [validate, rejectIf_bind_eq_ok, rejectSome_bind_eq_ok, duplicate_eq_none_iff,
    mem_nodeMap, List.find?_eq_none, decide_eq_true_eq, not_or, not_not, gt_iff_lt, Nat.not_lt, not_exists,
    not_and, Bool.not_eq_false]
  constructor
  · rintro ⟨hversion, hnodes, hedges, hne, hvalid, hnodup, henodup, htarget, hedge, hconflict, h⟩
    exact ⟨⟨hversion, hnodes, hedges, hne, hvalid, hnodup, henodup, htarget, hedge, hconflict⟩,
      (Except.ok.inj h).symm⟩
  · rintro ⟨h, rfl⟩
    exact ⟨h.version, h.node_limit, h.edge_limit, h.anchors_ne, h.anchors_valid, h.nodes_nodup,
      h.edges_nodup, h.target_known, h.edges_known, h.conflicts_known, rfl⟩

/-- In a validated request an identifier names one node. -/
theorem Validated.getElem?_nodeMap {request : KernelRequest} (h : Validated request)
    {id : String} {node : EvidenceNode} :
    (nodeMap request.nodes)[id]? = some node ↔ node ∈ request.nodes ∧ node.id = id :=
  getElem?_indexBy_of_nodup h.nodes_nodup

/-- A request whose only possible fault is its size. -/
structure WellFormed (request : KernelRequest) : Prop where
  version : request.protocolVersion = 1
  anchors_ne : request.goal.anchorKinds ≠ []
  anchors_valid : ∀ kind ∈ request.goal.anchorKinds, validAnchorKind kind = true
  nodes_nodup : (request.nodes.map (·.id)).Nodup
  edges_nodup : (request.edges.map (·.id)).Nodup
  target_known : Known request request.goal.targetId
  edges_known : ∀ edge ∈ request.edges, Known request edge.sourceId ∧ Known request edge.targetId
  conflicts_known : ∀ conflict ∈ request.conflicts,
    Known request conflict.leftNodeId ∧ Known request conflict.rightNodeId

/-- Too many nodes are the first thing that `validate` finds. -/
theorem validate_of_node_limit {request : KernelRequest} (hversion : request.protocolVersion = 1)
    (h : maxNodes < request.nodes.length) :
    validate request = .error (.resourceLimit, "evidence slice exceeds the node limit") := by
  unfold validate rejectIf
  rw [if_neg (not_not.mpr hversion), if_pos h]
  rfl

/-- **A well-formed request** fails only at a resource limit. -/
theorem WellFormed.code_of_error {request : KernelRequest} (h : WellFormed request)
    {failure : Failure} (hfail : validate request = .error failure) : failure.1 = .resourceLimit := by
  by_cases hnodes : request.nodes.length > maxNodes
  · rw [validate_of_node_limit h.version hnodes] at hfail
    obtain rfl := Except.error.inj hfail
    rfl
  by_cases hedges : request.edges.length > maxEdges
  · unfold validate rejectIf at hfail
    rw [if_neg (not_not.mpr h.version), if_neg hnodes, if_pos hedges] at hfail
    obtain rfl := Except.error.inj hfail
    rfl
  · have hvalid : validate request = .ok (nodeMap request.nodes) :=
      validate_eq_ok_iff.mpr ⟨⟨h.version, Nat.not_lt.mp hnodes, Nat.not_lt.mp hedges, h.anchors_ne,
        h.anchors_valid, h.nodes_nodup, h.edges_nodup, h.target_known, h.edges_known,
        h.conflicts_known⟩, rfl⟩
    rw [hvalid] at hfail
    exact nomatch hfail

end Rationale.Kernel
