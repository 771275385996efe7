import Rationale.Protocol

namespace Rationale.Kernel

/-!
# Kernel rules — bounds, anchors, admissible edges and gaps

`ocaml/lib/rules.ml`, definition by definition.
-/

/-- Maximum nodes accepted in one bounded evidence slice. -/
def maxNodes : Nat := 4096

/-- Maximum edges accepted in one bounded evidence slice. -/
def maxEdges : Nat := 16384

/-- Maximum path states explored for one proof request. -/
def maxPathStates : Nat := 65536

/-- Whether a node kind may represent recorded intent. -/
def validAnchorKind : NodeKind → Bool
  | .decision | .workItem => true
  | _ => false

/-- Whether a current node satisfies a proof goal. -/
def isAnchor (goal : ProofGoal) (node : EvidenceNode) : Bool :=
  node.status = .current && goal.anchorKinds.contains node.kind

/-- Whether an edge may participate in a positive proof path. -/
def isTraversable (edge : EvidenceEdge) : Bool :=
  edge.status = .current && edge.kind ≠ .supersedes

/-- The deterministic gap exposed at a terminal frontier node. -/
def gapFor (node : EvidenceNode) : Gap :=
  match node.kind with
  | .codeTarget => ⟨.targetToChange, some node.id, some .change⟩
  | .change => ⟨.changeToReview, some node.id, some .review⟩
  | .review => ⟨.changeToWorkItem, some node.id, some .workItem⟩
  | .workItem => ⟨.workItemToDecision, some node.id, some .decision⟩
  | .decision => ⟨.decisionToVerification, some node.id, some .verification⟩
  | .verification => ⟨.noCurrentAnchor, some node.id, none⟩

@[simp] theorem isAnchor_iff {goal : ProofGoal} {node : EvidenceNode} :
    isAnchor goal node = true ↔ node.status = .current ∧ node.kind ∈ goal.anchorKinds := by
  simp [isAnchor]

@[simp] theorem isTraversable_iff {edge : EvidenceEdge} :
    isTraversable edge = true ↔ edge.status = .current ∧ edge.kind ≠ .supersedes := by
  simp [isTraversable]

/-- Every gap names the node it was found at. -/
theorem gapFor_fromNodeId (node : EvidenceNode) : (gapFor node).fromNodeId = some node.id := by
  cases hk : node.kind <;> simp [gapFor, hk]

end Rationale.Kernel
