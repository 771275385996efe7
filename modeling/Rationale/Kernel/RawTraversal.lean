import Rationale.Kernel.Chains

namespace Rationale.Kernel

open Std Rationale.Library

/-!
# The kernel never raises

The OCaml loop keeps its paths as plain pairs of lists and takes `List.hd (List.rev path.node_ids)`,
which raises on a path without nodes.  `Evaluator.lean` keeps them as `Path`, which has a node by
construction.

* `RawPath`, `rawLoop`, `rawTraverse` — the loop on plain lists, `none` standing for an exception;
* `rawTraverse_eq` — it raises nothing, and computes what `traverse` computes;
* `exists_response` — no request makes `evaluate` raise;
* `evaluate_never_raises` — the two together, with every other partial operation.
-/

/-- `Proof.path` as it is written: nothing says that it has a node. -/
structure RawPath where
  nodeIds : List String
  edgeIds : List String
  deriving DecidableEq, Repr

/-- `Evaluator.traversal` over such paths. -/
structure RawTraversal where
  paths : List RawPath
  anchors : List RawPath
  reachable : StringSet

/-- `List.hd`, which raises on the empty list. -/
def hd {α : Type} (l : List α) : Option α := l.head?

/-- The extensions that `List.iter` adds to the queue. -/
def rawExtensions (candidates : List EvidenceEdge) (path : RawPath) : List RawPath :=
  (candidates.filter fun edge => !path.nodeIds.contains edge.targetId).map fun edge =>
    ⟨path.nodeIds ++ [edge.targetId], path.edgeIds ++ [edge.id]⟩

def rawLoop (goal : ProofGoal) (nodes : NodeMap) (superseded : StringSet)
    (outgoing : StringMap (List EvidenceEdge)) :
    Nat → List RawPath → List RawPath → List RawPath → StringSet →
      Option (Except Failure RawTraversal)
  | _, [], paths, anchors, reachable => some (.ok ⟨paths.reverse, anchors, reachable⟩)
  | 0, _ :: _, _, _, _ =>
      some (.error (.resourceLimit, "proof traversal exceeds the path-state limit"))
  | budget + 1, path :: queue, paths, anchors, reachable => do
      let nodeId ← hd path.nodeIds.reverse
      let reachable := reachable.insert nodeId
      match nodes[nodeId]? with
      | none => some (.error (.missingRecord, "traversal reached an absent node"))
      | some node =>
          if !activeNode superseded node then
            rawLoop goal nodes superseded outgoing budget queue (path :: paths) anchors reachable
          else
            let anchors := if isAnchor goal node then path :: anchors else anchors
            let candidates := outgoing[nodeId]?.getD []
            rawLoop goal nodes superseded outgoing budget (queue ++ rawExtensions candidates path)
              (path :: paths) anchors reachable

def rawTraverse (goal : ProofGoal) (nodes : NodeMap) (superseded : StringSet)
    (edges : List EvidenceEdge) : Option (Except Failure RawTraversal) :=
  rawLoop goal nodes superseded (outgoingMap edges) maxPathStates [⟨[goal.targetId], []⟩] [] [] ∅

/-- The lists of a path. -/
def Path.raw (path : Path) : RawPath := ⟨path.nodeIds, path.edgeIds⟩

def Traversal.raw (traversal : Traversal) : RawTraversal :=
  ⟨traversal.paths.map Path.raw, traversal.anchors.map Path.raw, traversal.reachable⟩

/-- The last node of a path is the head of its reversed nodes. -/
theorem Path.hd_reverse (path : Path) : hd path.nodeIds.reverse = some path.lastId := by
  rw [hd, List.head?_reverse, path.getLast?_nodeIds]

theorem rawExtensions_raw (outgoing : StringMap (List EvidenceEdge)) (path : Path) :
    rawExtensions (outgoing[path.lastId]?.getD []) path.raw =
      (extensions outgoing path).map Path.raw := by
  rw [extensions, List.map_map]
  rfl

/-- **The loop on plain lists** raises nothing when every queued path has a node. -/
theorem rawLoop_map_raw {goal : ProofGoal} {nodes : NodeMap} {superseded : StringSet}
    {outgoing : StringMap (List EvidenceEdge)} {budget : Nat} {queue paths anchors : List Path}
    {reachable : StringSet} :
    rawLoop goal nodes superseded outgoing budget (queue.map Path.raw) (paths.map Path.raw)
        (anchors.map Path.raw) reachable =
      some ((traverseLoop goal nodes superseded outgoing budget queue paths anchors reachable).map
        Traversal.raw) := by
  induction budget generalizing queue paths anchors reachable with
  | zero =>
    cases queue with
    | nil => simp [rawLoop, traverseLoop, Traversal.raw, Except.map]
    | cons path queue => simp [rawLoop, traverseLoop, Except.map]
  | succ budget ih =>
    cases queue with
    | nil => simp [rawLoop, traverseLoop, Traversal.raw, Except.map]
    | cons path queue =>
      -- the last node of a path is the head of the reversed list, which is never empty
      have hlast : hd path.raw.nodeIds.reverse = some path.lastId := path.hd_reverse
      rw [List.map_cons, rawLoop, hlast]
      unfold traverseLoop
      simp only [Option.bind_eq_bind, Option.bind_some]
      cases nodes[path.lastId]? with
      | none => rfl
      | some node =>
        dsimp only
        by_cases hactive : activeNode superseded node = true
        · -- the extensions of the path keep a node
          simp only [hactive, Bool.not_true, Bool.false_eq_true, if_false]
          rw [rawExtensions_raw, ← List.map_append, ← List.map_cons]
          by_cases hanchor : isAnchor goal node = true
          · rw [if_pos hanchor, if_pos hanchor, ← List.map_cons, ih]
          · rw [if_neg hanchor, if_neg hanchor, ih]
        · rw [Bool.not_eq_true] at hactive
          simp only [hactive, Bool.not_false, if_true]
          rw [← List.map_cons, ih]

/-- The traversal on plain lists is the traversal. -/
theorem rawTraverse_eq (goal : ProofGoal) (nodes : NodeMap) (superseded : StringSet)
    (edges : List EvidenceEdge) :
    rawTraverse goal nodes superseded edges =
      some ((traverse goal nodes superseded edges).map Traversal.raw) :=
  @rawLoop_map_raw goal nodes superseded (outgoingMap edges) maxPathStates [rootPath goal] [] [] ∅

/-- Every request gets a response. -/
theorem exists_response (request : KernelRequest) :
    ∃ response, evaluate request = some response := by
  cases hvalid : validate request with
  | error failure => exact ⟨protocolError request failure, by simp only [evaluate, hvalid]⟩
  | ok nodes =>
    obtain ⟨hv, -⟩ := validate_eq_ok_iff.mp hvalid
    cases ht : traversalOf request with
    | error failure => exact ⟨_, evaluate_of_traversal_error hv ht⟩
    | ok traversal =>
      obtain ⟨proof, hproof, -⟩ := verdictSpec_of_traversal hv ht
      exact ⟨_, hproof⟩

/-- The frontier of a finished traversal: the sorted path list has a head, that path has a last node,
    and the node is bound in the map. -/
theorem exists_frontier {request : KernelRequest} (hv : Validated request) {traversal : Traversal}
    (ht : traversalOf request = .ok traversal) :
    ∃ frontier node, hd (sortBy compareDepth traversal.paths) = some frontier ∧
      hd frontier.nodeIds.reverse = some frontier.lastId ∧
      (nodeMap request.nodes)[frontier.lastId]? = some node := by
  have hspec := traversalOf_spec hv ht
  have hne : traversal.paths ≠ [] :=
    List.ne_nil_of_mem ((hspec.mem_paths _).mpr isActivePath_rootPath)
  obtain ⟨frontier, hfrontier⟩ := deepestPath_isSome hne
  have hpath := (hspec.mem_paths _).mp (deepestPath_spec hfrontier).1
  obtain ⟨node, -, hnode, -⟩ := hpath.exists_node hv
  exact ⟨frontier, node, hfrontier, frontier.hd_reverse, hnode⟩

/-- **The kernel never raises.** Every request gets a response.  After `validate`, the head of a
    reversed path is always there, the traversal never reports an absent node, and the frontier of
    a finished traversal exists and is bound in the node map. -/
theorem evaluate_never_raises (request : KernelRequest) :
    (∃ response, evaluate request = some response) ∧
    ∀ nodes, validate request = .ok nodes →
      let superseded := supersededNodes nodes request.edges
      let edges := activeEdges nodes superseded request.edges
      (∃ result, rawTraverse request.goal nodes superseded edges = some result ∧
        result = (traverse request.goal nodes superseded edges).map Traversal.raw) ∧
      (∀ failure, traverse request.goal nodes superseded edges = .error failure →
        failure.1 ≠ .missingRecord) ∧
      ∀ traversal, traverse request.goal nodes superseded edges = .ok traversal →
        ∃ frontier node, hd (sortBy compareDepth traversal.paths) = some frontier ∧
          hd frontier.nodeIds.reverse = some frontier.lastId ∧
          nodes[frontier.lastId]? = some node := by
  refine ⟨exists_response request, fun nodes hvalid => ?_⟩
  obtain ⟨hv, rfl⟩ := validate_eq_ok_iff.mp hvalid
  refine ⟨⟨_, rawTraverse_eq _ _ _ _, rfl⟩, fun failure hfail => ?_, fun traversal hok => ?_⟩
  · rw [traversalOf_error hv hfail]
    exact fun h => nomatch h
  · exact exists_frontier hv hok

end Rationale.Kernel
