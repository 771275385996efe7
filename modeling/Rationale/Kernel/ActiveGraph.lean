import Rationale.Protocol
import Rationale.Library.SimplePath

namespace Rationale.Kernel

open Relation Rationale.Library

/-!
# What a verdict means — the active evidence graph

The kernel's purpose, stated on a request's own lists and without any algorithm:

* `Superseded`, `ActiveNode`, `Active`, `ActiveEdge` — the part of the evidence that counts;
* `Reachable` — plain graph reachability from the goal over active edges;
* `MaterialConflict` — the conflicts that decide a verdict;
* `ActivePath`, `AnchorPath` — simple routes, and those that end at recorded intent.

`Verdict.lean` and `Chains.lean` prove that `evaluate` decides exactly these notions.
-/

variable (request : KernelRequest)

/-- A current `supersedes` edge with a current source targets the node. -/
def Superseded (id : String) : Prop :=
  ∃ edge ∈ request.edges, edge.kind = .supersedes ∧ edge.status = .current ∧ edge.targetId = id ∧
    ∃ source ∈ request.nodes, source.id = edge.sourceId ∧ source.status = .current

/-- A current node that nothing current supersedes. -/
structure ActiveNode (node : EvidenceNode) : Prop where
  mem : node ∈ request.nodes
  current : node.status = .current
  notSuperseded : ¬ Superseded request node.id

/-- The identifier names an active node. -/
def Active (id : String) : Prop := ∃ node, ActiveNode request node ∧ node.id = id

/-- A current edge, other than `supersedes`, between active nodes. -/
structure ActiveEdge (edge : EvidenceEdge) : Prop where
  mem : edge ∈ request.edges
  current : edge.status = .current
  admissible : edge.kind ≠ .supersedes
  source : Active request edge.sourceId
  target : Active request edge.targetId

/-- One step along an active edge. -/
abbrev Step : String → String → Prop :=
  EdgeStep EvidenceEdge.sourceId EvidenceEdge.targetId (ActiveEdge request)

/-- Reachable from the goal's target over active edges. -/
def Reachable (id : String) : Prop := ReflTransGen (Step request) request.goal.targetId id

/-- Active and reachable from the goal's target. -/
def Reached (id : String) : Prop := Active request id ∧ Reachable request id

/-- The conflicts that make a verdict `conflicted`. -/
inductive MaterialConflict : Conflict → Prop where
  /-- An explicit conflict of the request whose ends are both active and reachable. -/
  | explicit {conflict : Conflict} (mem : conflict ∈ request.conflicts)
      (left : Reached request conflict.leftNodeId) (right : Reached request conflict.rightNodeId) :
      MaterialConflict conflict
  /-- Two active, reachable decisions with one subject and different outcomes. -/
  | outcomes {left right : EvidenceNode} {subject outcome outcome' : String}
      (left_active : ActiveNode request left) (right_active : ActiveNode request right)
      (left_reachable : Reachable request left.id) (right_reachable : Reachable request right.id)
      (left_kind : left.kind = .decision) (right_kind : right.kind = .decision)
      (left_subject : left.subjectId = some subject)
      (right_subject : right.subjectId = some subject)
      (left_outcome : left.outcomeId = some outcome)
      (right_outcome : right.outcomeId = some outcome') (differ : outcome ≠ outcome')
      (ordered : left.id < right.id) :
      MaterialConflict ⟨left.id, right.id, "conflict.subject_outcome"⟩

/-- A route of active edges from the goal's target that visits no node twice. -/
abbrev ActivePath (nodeIds : List String) (edges : List EvidenceEdge) : Prop :=
  SimplePath EvidenceEdge.sourceId EvidenceEdge.targetId (ActiveEdge request)
    request.goal.targetId nodeIds edges

/-- An active node of a kind the goal accepts as recorded intent. -/
def Anchor (id : String) : Prop :=
  ∃ node, ActiveNode request node ∧ node.id = id ∧ node.kind ∈ request.goal.anchorKinds

/-- An active path that ends at an anchor. -/
def AnchorPath (nodeIds : List String) (edges : List EvidenceEdge) : Prop :=
  ActivePath request nodeIds edges ∧ ∃ id, nodeIds.getLast? = some id ∧ Anchor request id

variable {request}

/-- What is reachable is reached by an active path, and conversely. -/
theorem reachable_iff_activePath {id : String} :
    Reachable request id ↔
      ∃ nodeIds edges, ActivePath request nodeIds edges ∧ nodeIds.getLast? = some id :=
  reachable_iff_simplePath

/-- Beyond the target itself only active nodes are reachable. -/
theorem Reachable.active_of_ne {id : String} (h : Reachable request id)
    (hne : id ≠ request.goal.targetId) : Active request id := by
  rcases h.cases_tail with rfl | ⟨_, _, edge, hedge, _, rfl⟩
  · exact absurd rfl hne
  · exact hedge.target

end Rationale.Kernel
