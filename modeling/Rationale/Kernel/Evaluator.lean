import Rationale.Kernel.Proof
import Rationale.Library.KeyedMap

namespace Rationale.Kernel

open Std Rationale.Library

/-!
# Kernel evaluator

`ocaml/lib/evaluator.ml`, definition by definition.

* `validate` — the request's bounds and references, with the node map on success;
* `supersededNodes`, `activeEdges`, `outgoingMap` — the active part of the evidence graph;
* `traverse` — breadth-first enumeration of simple paths under `maxPathStates`;
* `structuredConflicts`, `materialConflicts` — the conflicts that decide a verdict;
* `evaluate` — the response.  `none` stands for an OCaml exception (`List.hd` of an empty list,
  `String_map.find` of an unbound key).
-/

/-- `String_map` of evidence nodes by identifier. -/
abbrev NodeMap := StringMap EvidenceNode

/-- An error code with its message, as `validate` and `traverse` report it. -/
abbrev Failure := ErrorCode × String

structure Traversal where
  paths : List Path
  anchors : List Path
  reachable : StringSet

def protocolError (request : KernelRequest) (failure : Failure) : KernelResponse :=
  .error 1 request.requestId ⟨failure.1, failure.2⟩

/-- The first adjacent repetition of a sorted list. -/
def findDuplicate : List String → Option String
  | left :: right :: rest =>
      if left = right then some left else findDuplicate (right :: rest)
  | _ => none

def duplicate (values : List String) : Option String :=
  findDuplicate (sortBy compare values)

/-- `List.fold_left (fun records node -> String_map.add node.id node records)`. -/
def nodeMap (nodes : List EvidenceNode) : NodeMap := indexBy EvidenceNode.id nodes

/-- `if condition then Error failure else ...`. -/
def rejectIf (condition : Prop) [Decidable condition] (failure : Failure) : Except Failure Unit :=
  if condition then .error failure else .ok ()

/-- `match found with Some item -> Error (failure item) | None -> ...`. -/
def rejectSome {α : Type} (found : Option α) (failure : α → Failure) : Except Failure Unit :=
  match found with
  | some item => .error (failure item)
  | none => .ok ()

def validate (request : KernelRequest) : Except Failure NodeMap := do
  rejectIf (request.protocolVersion ≠ 1)
    (.unsupportedProtocol, s!"protocol version {request.protocolVersion} is unsupported")
  rejectIf (request.nodes.length > maxNodes)
    (.resourceLimit, "evidence slice exceeds the node limit")
  rejectIf (request.edges.length > maxEdges)
    (.resourceLimit, "evidence slice exceeds the edge limit")
  rejectIf (request.goal.anchorKinds = [])
    (.invalidRequest, "proof goal has no anchor kinds")
  rejectIf (∃ kind ∈ request.goal.anchorKinds, validAnchorKind kind = false)
    (.invalidRequest, "proof goal contains a non-rationale anchor kind")
  rejectSome (duplicate (request.nodes.map (·.id))) fun id =>
    (.invalidRequest, "duplicate node id: " ++ id)
  rejectSome (duplicate (request.edges.map (·.id))) fun id =>
    (.invalidRequest, "duplicate edge id: " ++ id)
  let nodes := nodeMap request.nodes
  rejectIf (request.goal.targetId ∉ nodes)
    (.missingRecord, "proof target is absent from the evidence slice")
  rejectSome (request.edges.find? fun edge => edge.sourceId ∉ nodes ∨ edge.targetId ∉ nodes)
    fun edge => (.missingRecord, "edge references a missing node: " ++ edge.id)
  rejectSome (request.conflicts.find? fun conflict =>
      conflict.leftNodeId ∉ nodes ∨ conflict.rightNodeId ∉ nodes)
    fun conflict => (.missingRecord, "conflict references a missing node: " ++ conflict.ruleId)
  return nodes

/-- One step of the fold in `superseded_nodes`. -/
def supersede (nodes : NodeMap) (superseded : StringSet) (edge : EvidenceEdge) : StringSet :=
  if edge.status ≠ .current ∨ edge.kind ≠ .supersedes then superseded
  else match nodes[edge.sourceId]? with
  | some source =>
      if source.status = .current then superseded.insert edge.targetId else superseded
  | none => superseded

def supersededNodes (nodes : NodeMap) (edges : List EvidenceEdge) : StringSet :=
  edges.foldl (supersede nodes) ∅

def activeNode (superseded : StringSet) (node : EvidenceNode) : Bool :=
  node.status = .current && !superseded.contains node.id

/-- `Option.fold ~none:false ~some:(active_node superseded) (String_map.find_opt id nodes)`. -/
def activeId (nodes : NodeMap) (superseded : StringSet) (id : String) : Bool :=
  match nodes[id]? with
  | some node => activeNode superseded node
  | none => false

/-- Source, then target, then identifier. -/
def compareEdges : EvidenceEdge → EvidenceEdge → Ordering :=
  compareLex (compareOn EvidenceEdge.sourceId)
    (compareLex (compareOn EvidenceEdge.targetId) (compareOn EvidenceEdge.id))

instance : TransCmp compareEdges := inferInstanceAs (TransCmp (compareLex _ (compareLex _ _)))

def activeEdges (nodes : NodeMap) (superseded : StringSet) (edges : List EvidenceEdge) :
    List EvidenceEdge :=
  sortBy compareEdges <| edges.filter fun edge =>
    isTraversable edge && activeId nodes superseded edge.sourceId
      && activeId nodes superseded edge.targetId

def outgoingMap (edges : List EvidenceEdge) : StringMap (List EvidenceEdge) :=
  edges.reverse.foldl (fun outgoing edge =>
    outgoing.insert edge.sourceId (edge :: outgoing[edge.sourceId]?.getD [])) ∅

/-- The path that takes one more edge. -/
def Path.snoc (path : Path) (edge : EvidenceEdge) : Path where
  nodeIds := path.nodeIds ++ [edge.targetId]
  edgeIds := path.edgeIds ++ [edge.id]
  nodeIds_ne := by simp

/-- The extensions of a path that `traverse` adds to its queue, in edge order. -/
def extensions (outgoing : StringMap (List EvidenceEdge)) (path : Path) : List Path :=
  ((outgoing[path.lastId]?.getD []).filter fun edge => !path.nodeIds.contains edge.targetId).map
    path.snoc

/-- The loop of `traverse`: `budget` is `max_path_states - explored`, so it stops exactly when
    the source's `explored >= Rules.max_path_states` holds with a non-empty queue. -/
def traverseLoop (goal : ProofGoal) (nodes : NodeMap) (superseded : StringSet)
    (outgoing : StringMap (List EvidenceEdge)) :
    Nat → List Path → List Path → List Path → StringSet → Except Failure Traversal
  | _, [], paths, anchors, reachable => .ok ⟨paths.reverse, anchors, reachable⟩
  | 0, _ :: _, _, _, _ =>
      .error (.resourceLimit, "proof traversal exceeds the path-state limit")
  | budget + 1, path :: queue, paths, anchors, reachable =>
      let reachable := reachable.insert path.lastId
      match nodes[path.lastId]? with
      | none => .error (.missingRecord, "traversal reached an absent node")
      | some node =>
          if !activeNode superseded node then
            traverseLoop goal nodes superseded outgoing budget queue (path :: paths) anchors
              reachable
          else
            let anchors := if isAnchor goal node then path :: anchors else anchors
            traverseLoop goal nodes superseded outgoing budget
              (queue ++ extensions outgoing path) (path :: paths) anchors reachable

/-- The path that stays at the target. -/
def rootPath (goal : ProofGoal) : Path := ⟨[goal.targetId], [], by simp⟩

def traverse (goal : ProofGoal) (nodes : NodeMap) (superseded : StringSet)
    (edges : List EvidenceEdge) : Except Failure Traversal :=
  traverseLoop goal nodes superseded (outgoingMap edges) maxPathStates [rootPath goal] [] [] ∅

/-- Whether two decisions state different outcomes for one subject, smaller identifier first. -/
def disagree (left right : EvidenceNode) : Bool :=
  compare left.id right.id = .lt && left.subjectId = right.subjectId
    && left.outcomeId ≠ right.outcomeId

def structuredConflicts (nodes : NodeMap) (superseded : StringSet) : List Conflict :=
  let decisions := (nodes.toList.map (·.2)).filter fun node =>
    activeNode superseded node && node.kind = .decision && node.subjectId.isSome
      && node.outcomeId.isSome
  decisions.flatMap fun left => decisions.filterMap fun right =>
    if disagree left right then some ⟨left.id, right.id, "conflict.subject_outcome"⟩ else none

def materialConflicts (reachable superseded : StringSet) (nodes : NodeMap)
    (conflicts : List Conflict) : List Conflict :=
  normalizeConflicts <| conflicts.filter fun conflict =>
    reachable.contains conflict.leftNodeId && reachable.contains conflict.rightNodeId
      && activeId nodes superseded conflict.leftNodeId
      && activeId nodes superseded conflict.rightNodeId

/-- Longer paths first, then node identifiers. -/
def compareDepth : Path → Path → Ordering :=
  compareLex (fun left right => compare right.edgeIds.length left.edgeIds.length)
    (compareOn Path.nodeIds)

def deepestPath (paths : List Path) : Option Path := (sortBy compareDepth paths).head?

/-- The proof drawn from a finished traversal. -/
def proofOf (nodes : NodeMap) (traversal : Traversal) (conflicts : List Conflict) :
    Option ProofResult :=
  if conflicts ≠ [] then some (conflicted conflicts)
  else if traversal.anchors ≠ [] then some (established traversal.anchors)
  else do
    let frontier ← deepestPath traversal.paths
    let node ← nodes[frontier.lastId]?
    some (incomplete frontier node)

def evaluate (request : KernelRequest) : Option KernelResponse :=
  match validate request with
  | .error failure => some (protocolError request failure)
  | .ok nodes =>
    let superseded := supersededNodes nodes request.edges
    let edges := activeEdges nodes superseded request.edges
    match traverse request.goal nodes superseded edges with
    | .error failure => some (protocolError request failure)
    | .ok traversal =>
      let conflicts := materialConflicts traversal.reachable superseded nodes
        (request.conflicts ++ structuredConflicts nodes superseded)
      (proofOf nodes traversal conflicts).map fun proof =>
        .proof 1 request.requestId request.snapshotId proof

end Rationale.Kernel
