import Rationale.Kernel.Evaluator

namespace Rationale.Kernel

/-!
# What a response says

A response echoes the identifiers of its request.  `content` is the rest of it, and depends on the
rest of the request only.
-/

/-- A response without the identifiers it echoes. -/
def content : KernelResponse → Except ProtocolError ProofResult
  | .proof _ _ _ proof => .ok proof
  | .error _ _ error => .error error

/-- Two requests for the same proof, under any identifiers. -/
structure SameQuestion (left right : KernelRequest) : Prop where
  protocolVersion : left.protocolVersion = right.protocolVersion
  goal : left.goal = right.goal
  nodes : left.nodes = right.nodes
  edges : left.edges = right.edges
  conflicts : left.conflicts = right.conflicts

/-- The kernel's answer without the identifiers. -/
def answer (request : KernelRequest) : Option (Except ProtocolError ProofResult) :=
  (evaluate request).map content

/-- **The answer does not depend on the identifiers.** -/
theorem answer_congr {left right : KernelRequest} (h : SameQuestion left right) :
    answer left = answer right := by
  obtain ⟨hversion, hgoal, hnodes, hedges, hconflicts⟩ := h
  obtain ⟨version, requestId, snapshotId, goal, nodes, edges, conflicts⟩ := left
  obtain ⟨_, requestId', snapshotId', _, _, _, _⟩ := right
  simp only at hversion hgoal hnodes hedges hconflicts
  subst hversion hgoal hnodes hedges hconflicts
  -- neither `validate` nor `traverse` reads an identifier
  have hvalid : validate ⟨version, requestId', snapshotId', goal, nodes, edges, conflicts⟩ =
      validate ⟨version, requestId, snapshotId, goal, nodes, edges, conflicts⟩ := rfl
  unfold answer evaluate
  rw [hvalid]
  cases validate ⟨version, requestId, snapshotId, goal, nodes, edges, conflicts⟩ with
  | error failure => rfl
  | ok map =>
    dsimp only
    cases traverse goal map (supersededNodes map edges)
        (activeEdges map (supersededNodes map edges) edges) with
    | error failure => rfl
    | ok traversal =>
      dsimp only
      rw [Option.map_map, Option.map_map]
      rfl

end Rationale.Kernel
