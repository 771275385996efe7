import Rationale.Kernel.Evaluator
import Rationale.Library.Json

namespace Rationale.Wire

open Rationale.Library Rationale.Kernel

/-!
# The kernel's protocol codecs

The encoders and decoders of `ocaml/lib/model.ml`, over the trees of `Yojson.Safe`.  Every decoder
reports the first thing it finds wrong, under the path of the field that it was reading.

* `listOf`, `fields`, `required`, `optional` — the shared pieces of the decoders;
* `closedString` — a decoder of a closed set of strings, from its table;
* `kernelRequestToYojson`, `kernelRequestOfYojson`, `kernelResponseToYojson`,
  `kernelResponseOfYojson` — the two messages, and before them their parts.
-/

/-- `error context expected`. -/
def decodeError {α : Type} (context expected : String) : Except String α :=
  .error (context ++ ": expected " ++ expected)

def string : Json → Except String String
  | .string value => .ok value
  | _ => decodeError "value" "string"

def integer : Json → Except String Int
  | .int value => .ok value
  | _ => decodeError "value" "integer"

/-- `list`: the items are collected in reverse, and the first failure is kept. -/
def listOf {α : Type} (decode : Json → Except String α) : Json → Except String (List α)
  | .list values =>
    (values.foldl (fun result value => do
      let decoded ← result
      let item ← decode value
      return item :: decoded) (.ok [])).map List.reverse
  | _ => decodeError "value" "array"

/-- The fields of an object without duplicate and unknown keys. -/
def fields (context : String) (allowed : List String) :
    Json → Except String (List (String × Json))
  | .assoc values =>
    -- adjacent equal keys of the sorted list, as in the evaluator's own check
    match duplicate (values.map Prod.fst) with
    | some key => .error (context ++ ": duplicate field `" ++ key ++ "`")
    | none =>
      match values.find? fun field => field.1 ∉ allowed with
      | some (key, _) => .error (context ++ ": unknown field `" ++ key ++ "`")
      | none => .ok values
  | _ => decodeError context "object"

def required {α : Type} (context name : String) (decode : Json → Except String α)
    (values : List (String × Json)) : Except String α :=
  match values.lookup name with
  | none => .error (context ++ ": missing field `" ++ name ++ "`")
  | some value => (decode value).mapError fun detail => context ++ "." ++ name ++ ": " ++ detail

def optional {α : Type} (context name : String) (decode : Json → Except String α)
    (values : List (String × Json)) : Except String (Option α) :=
  match values.lookup name with
  | none => .ok none
  | some value =>
    ((decode value).map some).mapError fun detail => context ++ "." ++ name ++ ": " ++ detail

/-- A closed set of strings. -/
def closedString {α : Type} (context expected : String) (table : List (String × α)) :
    Json → Except String α
  | .string value =>
    match table.lookup value with
    | some a => .ok a
    | none => decodeError context expected
  | _ => decodeError context expected

/-! ### Closed strings -/

def stringOfNodeKind : NodeKind → String
  | .codeTarget => "code_target"
  | .change => "change"
  | .workItem => "work_item"
  | .review => "review"
  | .decision => "decision"
  | .verification => "verification"

def nodeKindOfYojson : Json → Except String NodeKind :=
  closedString "node kind" "closed node-kind string"
    [("code_target", .codeTarget), ("change", .change), ("work_item", .workItem),
      ("review", .review), ("decision", .decision), ("verification", .verification)]

def stringOfEdgeKind : EdgeKind → String
  | .introducedBy => "introduced_by"
  | .changedBy => "changed_by"
  | .includedInPr => "included_in_pr"
  | .resolvesIssue => "resolves_issue"
  | .documents => "documents"
  | .supersedes => "supersedes"
  | .verifiedBy => "verified_by"

def edgeKindOfYojson : Json → Except String EdgeKind :=
  closedString "edge kind" "closed edge-kind string"
    [("introduced_by", .introducedBy), ("changed_by", .changedBy),
      ("included_in_pr", .includedInPr), ("resolves_issue", .resolvesIssue),
      ("documents", .documents), ("supersedes", .supersedes), ("verified_by", .verifiedBy)]

def stringOfRecordStatus : RecordStatus → String
  | .current => "current"
  | .historical => "historical"

def recordStatusOfYojson : Json → Except String RecordStatus :=
  closedString "record status" "`current` or `historical`"
    [("current", .current), ("historical", .historical)]

def stringOfSourceKind : SourceKind → String
  | .git => "git"
  | .github => "github"
  | .document => "document"
  | .verification => "verification"
  | .synthetic => "synthetic"

def sourceKindOfYojson : Json → Except String SourceKind :=
  closedString "source kind" "closed source-kind string"
    [("git", .git), ("github", .github), ("document", .document),
      ("verification", .verification), ("synthetic", .synthetic)]

def stringOfVerdict : Verdict → String
  | .established => "established"
  | .partialProof => "partial"
  | .notEstablished => "not_established"
  | .conflicted => "conflicted"

def verdictOfYojson : Json → Except String Verdict :=
  closedString "verdict" "closed verdict string"
    [("established", .established), ("partial", .partialProof),
      ("not_established", .notEstablished), ("conflicted", .conflicted)]

def stringOfGapCode : GapCode → String
  | .targetToChange => "target_to_change"
  | .changeToReview => "change_to_review"
  | .changeToWorkItem => "change_to_work_item"
  | .workItemToDecision => "work_item_to_decision"
  | .decisionToVerification => "decision_to_verification"
  | .noCurrentAnchor => "no_current_anchor"

def gapCodeOfYojson : Json → Except String GapCode :=
  closedString "gap code" "closed gap-code string"
    [("target_to_change", .targetToChange), ("change_to_review", .changeToReview),
      ("change_to_work_item", .changeToWorkItem),
      ("work_item_to_decision", .workItemToDecision),
      ("decision_to_verification", .decisionToVerification),
      ("no_current_anchor", .noCurrentAnchor)]

def stringOfErrorCode : ErrorCode → String
  | .unsupportedProtocol => "unsupported_protocol"
  | .invalidRequest => "invalid_request"
  | .missingRecord => "missing_record"
  | .resourceLimit => "resource_limit"
  | .internal => "internal"

def errorCodeOfYojson : Json → Except String ErrorCode :=
  closedString "error code" "closed error-code string"
    [("unsupported_protocol", .unsupportedProtocol), ("invalid_request", .invalidRequest),
      ("missing_record", .missingRecord), ("resource_limit", .resourceLimit),
      ("internal", .internal)]

/-! ### Records -/

/-- `optional name value` of the encoders. -/
def optionalField (name : String) (value : Option Json) : List (String × Json) :=
  value.elim [] fun item => [(name, item)]

def originFields (origin : Origin) : List (String × Json) :=
  [("locator", .string origin.locator),
    ("source_kind", .string (stringOfSourceKind origin.sourceKind))] ++
  optionalField "observed_at" (origin.observedAt.map .string) ++
  optionalField "revision" (origin.revision.map .string)

def originToYojson (origin : Origin) : Json := .object (originFields origin)

def originOfYojson (json : Json) : Except String Origin := do
  let context := "origin"
  let values ← fields context ["locator", "observed_at", "revision", "source_kind"] json
  let sourceKind ← required context "source_kind" sourceKindOfYojson values
  let locator ← required context "locator" string values
  let revision ← optional context "revision" string values
  let observedAt ← optional context "observed_at" string values
  return { sourceKind, locator, revision, observedAt }

def evidenceNodeFields (node : EvidenceNode) : List (String × Json) :=
  [("id", .string node.id), ("kind", .string (stringOfNodeKind node.kind)),
    ("origin", originToYojson node.origin),
    ("status", .string (stringOfRecordStatus node.status))] ++
  optionalField "outcome_id" (node.outcomeId.map .string) ++
  optionalField "subject_id" (node.subjectId.map .string)

def evidenceNodeToYojson (node : EvidenceNode) : Json := .object (evidenceNodeFields node)

def evidenceNodeOfYojson (json : Json) : Except String EvidenceNode := do
  let context := "node"
  let values ← fields context ["id", "kind", "origin", "outcome_id", "status", "subject_id"] json
  let id ← required context "id" string values
  let kind ← required context "kind" nodeKindOfYojson values
  let status ← required context "status" recordStatusOfYojson values
  let subjectId ← optional context "subject_id" string values
  let outcomeId ← optional context "outcome_id" string values
  let origin ← required context "origin" originOfYojson values
  return { id, kind, status, subjectId, outcomeId, origin }

def evidenceEdgeFields (edge : EvidenceEdge) : List (String × Json) :=
  [("id", .string edge.id), ("kind", .string (stringOfEdgeKind edge.kind)),
    ("origin", originToYojson edge.origin), ("source_id", .string edge.sourceId),
    ("status", .string (stringOfRecordStatus edge.status)), ("target_id", .string edge.targetId)]

def evidenceEdgeToYojson (edge : EvidenceEdge) : Json := .object (evidenceEdgeFields edge)

def evidenceEdgeOfYojson (json : Json) : Except String EvidenceEdge := do
  let context := "edge"
  let values ← fields context ["id", "kind", "origin", "source_id", "status", "target_id"] json
  let id ← required context "id" string values
  let kind ← required context "kind" edgeKindOfYojson values
  let sourceId ← required context "source_id" string values
  let targetId ← required context "target_id" string values
  let status ← required context "status" recordStatusOfYojson values
  let origin ← required context "origin" originOfYojson values
  return { id, kind, sourceId, targetId, status, origin }

def conflictFields (conflict : Conflict) : List (String × Json) :=
  [("left_node_id", .string conflict.leftNodeId), ("right_node_id", .string conflict.rightNodeId),
    ("rule_id", .string conflict.ruleId)]

def conflictToYojson (conflict : Conflict) : Json := .object (conflictFields conflict)

def conflictOfYojson (json : Json) : Except String Conflict := do
  let context := "conflict"
  let values ← fields context ["left_node_id", "right_node_id", "rule_id"] json
  let leftNodeId ← required context "left_node_id" string values
  let rightNodeId ← required context "right_node_id" string values
  let ruleId ← required context "rule_id" string values
  return { leftNodeId, rightNodeId, ruleId }

def proofGoalFields (goal : ProofGoal) : List (String × Json) :=
  [("anchor_kinds", .list (goal.anchorKinds.map fun kind => .string (stringOfNodeKind kind))),
    ("target_id", .string goal.targetId)]

def proofGoalToYojson (goal : ProofGoal) : Json := .object (proofGoalFields goal)

def proofGoalOfYojson (json : Json) : Except String ProofGoal := do
  let context := "goal"
  let values ← fields context ["anchor_kinds", "target_id"] json
  let targetId ← required context "target_id" string values
  let anchorKinds ← required context "anchor_kinds" (listOf nodeKindOfYojson) values
  return { targetId, anchorKinds }

/-! ### Requests -/

def kernelRequestFields (request : KernelRequest) : List (String × Json) :=
  [("conflicts", .list (request.conflicts.map conflictToYojson)),
    ("edges", .list (request.edges.map evidenceEdgeToYojson)),
    ("goal", proofGoalToYojson request.goal),
    ("nodes", .list (request.nodes.map evidenceNodeToYojson)),
    ("protocol_version", .int request.protocolVersion),
    ("request_id", .string request.requestId), ("snapshot_id", .string request.snapshotId)]

def kernelRequestToYojson (request : KernelRequest) : Json := .object (kernelRequestFields request)

def kernelRequestOfYojson (json : Json) : Except String KernelRequest := do
  let context := "request"
  let values ← fields context ["conflicts", "edges", "goal", "nodes", "protocol_version",
    "request_id", "snapshot_id"] json
  let protocolVersion ← required context "protocol_version" integer values
  let requestId ← required context "request_id" string values
  let snapshotId ← required context "snapshot_id" string values
  let goal ← required context "goal" proofGoalOfYojson values
  let nodes ← required context "nodes" (listOf evidenceNodeOfYojson) values
  let edges ← required context "edges" (listOf evidenceEdgeOfYojson) values
  let conflicts ← required context "conflicts" (listOf conflictOfYojson) values
  return { protocolVersion, requestId, snapshotId, goal, nodes, edges, conflicts }

/-! ### Responses -/

def gapFields (gap : Gap) : List (String × Json) :=
  [("code", .string (stringOfGapCode gap.code))] ++
  optionalField "from_node_id" (gap.fromNodeId.map .string) ++
  optionalField "to_kind" (gap.toKind.map fun kind => .string (stringOfNodeKind kind))

def gapToYojson (gap : Gap) : Json := .object (gapFields gap)

def gapOfYojson (json : Json) : Except String Gap := do
  let context := "gap"
  let values ← fields context ["code", "from_node_id", "to_kind"] json
  let code ← required context "code" gapCodeOfYojson values
  let fromNodeId ← optional context "from_node_id" string values
  let toKind ← optional context "to_kind" nodeKindOfYojson values
  return { code, fromNodeId, toKind }

def strings (values : List String) : Json := .list (values.map .string)

def proofChainFields (chain : ProofChain) : List (String × Json) :=
  [("edge_ids", strings chain.edgeIds), ("node_ids", strings chain.nodeIds),
    ("rule_ids", strings chain.ruleIds)]

def proofChainToYojson (chain : ProofChain) : Json := .object (proofChainFields chain)

def proofChainOfYojson (json : Json) : Except String ProofChain := do
  let context := "proof chain"
  let values ← fields context ["edge_ids", "node_ids", "rule_ids"] json
  let nodeIds ← required context "node_ids" (listOf string) values
  let edgeIds ← required context "edge_ids" (listOf string) values
  let ruleIds ← required context "rule_ids" (listOf string) values
  return { nodeIds, edgeIds, ruleIds }

def proofResultFields (proof : ProofResult) : List (String × Json) :=
  [("conflicts", .list (proof.conflicts.map conflictToYojson)),
    ("gaps", .list (proof.gaps.map gapToYojson)),
    ("proof_chains", .list (proof.proofChains.map proofChainToYojson)),
    ("verdict", .string (stringOfVerdict proof.verdict))]

def proofResultToYojson (proof : ProofResult) : Json := .object (proofResultFields proof)

def proofResultOfYojson (json : Json) : Except String ProofResult := do
  let context := "proof"
  let values ← fields context ["conflicts", "gaps", "proof_chains", "verdict"] json
  let verdict ← required context "verdict" verdictOfYojson values
  let proofChains ← required context "proof_chains" (listOf proofChainOfYojson) values
  let gaps ← required context "gaps" (listOf gapOfYojson) values
  let conflicts ← required context "conflicts" (listOf conflictOfYojson) values
  return { verdict, proofChains, gaps, conflicts }

def protocolErrorFields (error : ProtocolError) : List (String × Json) :=
  [("code", .string (stringOfErrorCode error.code)), ("message", .string error.message)]

def protocolErrorToYojson (error : ProtocolError) : Json := .object (protocolErrorFields error)

def protocolErrorOfYojson (json : Json) : Except String ProtocolError := do
  let context := "error"
  let values ← fields context ["code", "message"] json
  let code ← required context "code" errorCodeOfYojson values
  let message ← required context "message" string values
  return { code, message }

def kernelResponseFields : KernelResponse → List (String × Json)
  | .proof protocolVersion requestId snapshotId proof =>
    [("proof", proofResultToYojson proof), ("protocol_version", .int protocolVersion),
      ("request_id", .string requestId), ("snapshot_id", .string snapshotId),
      ("status", .string "proof")]
  | .error protocolVersion requestId error =>
    [("error", protocolErrorToYojson error), ("protocol_version", .int protocolVersion),
      ("request_id", .string requestId), ("status", .string "error")]

def kernelResponseToYojson (response : KernelResponse) : Json :=
  .object (kernelResponseFields response)

def proofResponseOfFields (values : List (String × Json)) : Except String KernelResponse := do
  let context := "proof response"
  let protocolVersion ← required context "protocol_version" integer values
  let requestId ← required context "request_id" string values
  let snapshotId ← required context "snapshot_id" string values
  let proof ← required context "proof" proofResultOfYojson values
  return .proof protocolVersion requestId snapshotId proof

def errorResponseOfFields (values : List (String × Json)) : Except String KernelResponse := do
  let context := "error response"
  let protocolVersion ← required context "protocol_version" integer values
  let requestId ← required context "request_id" string values
  let error ← required context "error" protocolErrorOfYojson values
  return .error protocolVersion requestId error

def kernelResponseOfYojson (json : Json) : Except String KernelResponse :=
  match json with
  | .assoc values =>
    match values.lookup "status" with
    | some (.string "proof") => do
      let values ← fields "proof response"
        ["proof", "protocol_version", "request_id", "snapshot_id", "status"] json
      proofResponseOfFields values
    | some (.string "error") => do
      let values ← fields "error response" ["error", "protocol_version", "request_id", "status"] json
      errorResponseOfFields values
    | some _ => decodeError "response.status" "`proof` or `error`"
    | none => .error "response: missing field `status`"
  | _ => decodeError "response" "object"

end Rationale.Wire
