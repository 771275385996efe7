import Mathlib.Algebra.Group.Int.Defs
import Rationale.Wire.Model

namespace Rationale.Wire

open Rationale.Library Rationale.Kernel

/-!
# The host's protocol codecs

The trees that serde's derived implementations write and read for
`crates/rationale-model/src/protocol.rs`, and the envelope of `crates/rationale-protocol/src/worker.rs`.

* `unitVariant`, `structFields`, `field`, `optionField`, `internallyTagged` — what the derived
  decoders accept, for each shape of type;
* `serializeKernelRequest`, `serializeKernelResponse`, `serializeHostMessage` — fields in the order
  of their declaration;
* `deserializeKernelRequest`, `deserializeKernelResponse`;
* `toCanonicalJson` — the recursively sorted tree.

A decoder that fails is `none`: its texts are serde's.
-/

/-! ### Derived decoders -/

/-- What may stand under the name of a unit variant.  Content that was buffered to find a tag also
    takes an empty object for a unit. -/
def unitPayload (buffered : Bool) : Json → Bool
  | .null => true
  | .assoc [] => buffered
  | _ => false

/-- A unit variant is its name, or an object with that name and no payload. -/
def unitVariant {α : Type} (buffered : Bool) (variants : List (String × α)) : Json → Option α
  | .string name => variants.lookup name
  | .assoc [(name, payload)] =>
    if unitPayload buffered payload then variants.lookup name else none
  | _ => none

/-- The range of a `u16`. -/
def InU16 (value : Int) : Prop := 0 ≤ value ∧ value < 2 ^ 16

instance (value : Int) : Decidable (InU16 value) := inferInstanceAs (Decidable (_ ∧ _))

def deserializeU16 : Json → Option Int
  | .int value => if InU16 value then some value else none
  | _ => none

def deserializeString : Json → Option String
  | .string value => some value
  | _ => none

def deserializeVec {α : Type} (decode : Json → Option α) : Json → Option (List α)
  | .list items => items.mapM decode
  | _ => none

/-- The fields of a struct with `deny_unknown_fields`: an object, or an array with every field in the
    order of declaration. -/
def structFields (names : List String) : Json → Option (List (String × Json))
  | .assoc values =>
    if (values.map Prod.fst).Nodup ∧ ∀ field ∈ values, field.1 ∈ names then some values else none
  | .list items => if items.length = names.length then some (names.zip items) else none
  | _ => none

def field {α : Type} (name : String) (decode : Json → Option α) (values : List (String × Json)) :
    Option α :=
  (values.lookup name).bind decode

/-- An `Option` may be absent or null. -/
def optionField {α : Type} (name : String) (decode : Json → Option α)
    (values : List (String × Json)) : Option (Option α) :=
  match values.lookup name with
  | none => some none
  | some .null => some none
  | some value => (decode value).map some

/-- An internally tagged enum: an object with the tag among its fields, or an array that starts with
    it.  The rest is buffered for the variant. -/
def internallyTagged {α : Type} (tag : String) (variant : String → Json → Option α) :
    Json → Option α
  | .assoc values =>
    match values.filter fun field => field.1 = tag with
    | [(_, .string name)] => variant name (.assoc (values.filter fun field => field.1 ≠ tag))
    | _ => none
  | .list (.string name :: items) => variant name (.list items)
  | _ => none

/-! ### Closed enums -/

def serializeNodeKind : NodeKind → Json
  | .codeTarget => .string "code_target"
  | .change => .string "change"
  | .workItem => .string "work_item"
  | .review => .string "review"
  | .decision => .string "decision"
  | .verification => .string "verification"

def deserializeNodeKind (buffered : Bool) : Json → Option NodeKind :=
  unitVariant buffered
    [("code_target", .codeTarget), ("change", .change), ("work_item", .workItem),
      ("review", .review), ("decision", .decision), ("verification", .verification)]

def serializeEdgeKind : EdgeKind → Json
  | .introducedBy => .string "introduced_by"
  | .changedBy => .string "changed_by"
  | .includedInPr => .string "included_in_pr"
  | .resolvesIssue => .string "resolves_issue"
  | .documents => .string "documents"
  | .supersedes => .string "supersedes"
  | .verifiedBy => .string "verified_by"

def deserializeEdgeKind (buffered : Bool) : Json → Option EdgeKind :=
  unitVariant buffered
    [("introduced_by", .introducedBy), ("changed_by", .changedBy),
      ("included_in_pr", .includedInPr), ("resolves_issue", .resolvesIssue),
      ("documents", .documents), ("supersedes", .supersedes), ("verified_by", .verifiedBy)]

def serializeRecordStatus : RecordStatus → Json
  | .current => .string "current"
  | .historical => .string "historical"

def deserializeRecordStatus (buffered : Bool) : Json → Option RecordStatus :=
  unitVariant buffered [("current", .current), ("historical", .historical)]

/-- `GitHub` is renamed: `rename_all` would spell it `git_hub`. -/
def serializeSourceKind : SourceKind → Json
  | .git => .string "git"
  | .github => .string "github"
  | .document => .string "document"
  | .verification => .string "verification"
  | .synthetic => .string "synthetic"

def deserializeSourceKind (buffered : Bool) : Json → Option SourceKind :=
  unitVariant buffered
    [("git", .git), ("github", .github), ("document", .document),
      ("verification", .verification), ("synthetic", .synthetic)]

def serializeVerdict : Verdict → Json
  | .established => .string "established"
  | .partialProof => .string "partial"
  | .notEstablished => .string "not_established"
  | .conflicted => .string "conflicted"

def deserializeVerdict (buffered : Bool) : Json → Option Verdict :=
  unitVariant buffered
    [("established", .established), ("partial", .partialProof),
      ("not_established", .notEstablished), ("conflicted", .conflicted)]

def serializeGapCode : GapCode → Json
  | .targetToChange => .string "target_to_change"
  | .changeToReview => .string "change_to_review"
  | .changeToWorkItem => .string "change_to_work_item"
  | .workItemToDecision => .string "work_item_to_decision"
  | .decisionToVerification => .string "decision_to_verification"
  | .noCurrentAnchor => .string "no_current_anchor"

def deserializeGapCode (buffered : Bool) : Json → Option GapCode :=
  unitVariant buffered
    [("target_to_change", .targetToChange), ("change_to_review", .changeToReview),
      ("change_to_work_item", .changeToWorkItem),
      ("work_item_to_decision", .workItemToDecision),
      ("decision_to_verification", .decisionToVerification),
      ("no_current_anchor", .noCurrentAnchor)]

def serializeErrorCode : ErrorCode → Json
  | .unsupportedProtocol => .string "unsupported_protocol"
  | .invalidRequest => .string "invalid_request"
  | .missingRecord => .string "missing_record"
  | .resourceLimit => .string "resource_limit"
  | .internal => .string "internal"

def deserializeErrorCode (buffered : Bool) : Json → Option ErrorCode :=
  unitVariant buffered
    [("unsupported_protocol", .unsupportedProtocol), ("invalid_request", .invalidRequest),
      ("missing_record", .missingRecord), ("resource_limit", .resourceLimit),
      ("internal", .internal)]

/-! ### Structs -/

def serializeOrigin (origin : Origin) : Json :=
  .assoc ([("source_kind", serializeSourceKind origin.sourceKind),
      ("locator", .string origin.locator)] ++
    optionalField "revision" (origin.revision.map .string) ++
    optionalField "observed_at" (origin.observedAt.map .string))

def originNames : List String := ["source_kind", "locator", "revision", "observed_at"]

def deserializeOrigin (buffered : Bool) (json : Json) : Option Origin := do
  let values ← structFields originNames json
  let sourceKind ← field "source_kind" (deserializeSourceKind buffered) values
  let locator ← field "locator" deserializeString values
  let revision ← optionField "revision" deserializeString values
  let observedAt ← optionField "observed_at" deserializeString values
  return { sourceKind, locator, revision, observedAt }

def serializeEvidenceNode (node : EvidenceNode) : Json :=
  .assoc ([("id", .string node.id), ("kind", serializeNodeKind node.kind),
      ("status", serializeRecordStatus node.status)] ++
    optionalField "subject_id" (node.subjectId.map .string) ++
    optionalField "outcome_id" (node.outcomeId.map .string) ++
    [("origin", serializeOrigin node.origin)])

def evidenceNodeNames : List String := ["id", "kind", "status", "subject_id", "outcome_id", "origin"]

def deserializeEvidenceNode (buffered : Bool) (json : Json) : Option EvidenceNode := do
  let values ← structFields evidenceNodeNames json
  let id ← field "id" deserializeString values
  let kind ← field "kind" (deserializeNodeKind buffered) values
  let status ← field "status" (deserializeRecordStatus buffered) values
  let subjectId ← optionField "subject_id" deserializeString values
  let outcomeId ← optionField "outcome_id" deserializeString values
  let origin ← field "origin" (deserializeOrigin buffered) values
  return { id, kind, status, subjectId, outcomeId, origin }

def serializeEvidenceEdge (edge : EvidenceEdge) : Json :=
  .assoc [("id", .string edge.id), ("kind", serializeEdgeKind edge.kind),
    ("source_id", .string edge.sourceId), ("target_id", .string edge.targetId),
    ("status", serializeRecordStatus edge.status), ("origin", serializeOrigin edge.origin)]

def evidenceEdgeNames : List String := ["id", "kind", "source_id", "target_id", "status", "origin"]

def deserializeEvidenceEdge (buffered : Bool) (json : Json) : Option EvidenceEdge := do
  let values ← structFields evidenceEdgeNames json
  let id ← field "id" deserializeString values
  let kind ← field "kind" (deserializeEdgeKind buffered) values
  let sourceId ← field "source_id" deserializeString values
  let targetId ← field "target_id" deserializeString values
  let status ← field "status" (deserializeRecordStatus buffered) values
  let origin ← field "origin" (deserializeOrigin buffered) values
  return { id, kind, sourceId, targetId, status, origin }

def serializeConflict (conflict : Conflict) : Json :=
  .assoc [("left_node_id", .string conflict.leftNodeId),
    ("right_node_id", .string conflict.rightNodeId), ("rule_id", .string conflict.ruleId)]

def conflictNames : List String := ["left_node_id", "right_node_id", "rule_id"]

def deserializeConflict (json : Json) : Option Conflict := do
  let values ← structFields conflictNames json
  let leftNodeId ← field "left_node_id" deserializeString values
  let rightNodeId ← field "right_node_id" deserializeString values
  let ruleId ← field "rule_id" deserializeString values
  return { leftNodeId, rightNodeId, ruleId }

def serializeProofGoal (goal : ProofGoal) : Json :=
  .assoc [("target_id", .string goal.targetId),
    ("anchor_kinds", .list (goal.anchorKinds.map serializeNodeKind))]

def proofGoalNames : List String := ["target_id", "anchor_kinds"]

def deserializeProofGoal (buffered : Bool) (json : Json) : Option ProofGoal := do
  let values ← structFields proofGoalNames json
  let targetId ← field "target_id" deserializeString values
  let anchorKinds ← field "anchor_kinds" (deserializeVec (deserializeNodeKind buffered)) values
  return { targetId, anchorKinds }

/-! ### Requests -/

def serializeKernelRequest (request : KernelRequest) : Json :=
  .assoc [("protocol_version", .int request.protocolVersion),
    ("request_id", .string request.requestId), ("snapshot_id", .string request.snapshotId),
    ("goal", serializeProofGoal request.goal),
    ("nodes", .list (request.nodes.map serializeEvidenceNode)),
    ("edges", .list (request.edges.map serializeEvidenceEdge)),
    ("conflicts", .list (request.conflicts.map serializeConflict))]

def kernelRequestNames : List String :=
  ["protocol_version", "request_id", "snapshot_id", "goal", "nodes", "edges", "conflicts"]

def deserializeKernelRequest (json : Json) : Option KernelRequest := do
  let values ← structFields kernelRequestNames json
  let protocolVersion ← field "protocol_version" deserializeU16 values
  let requestId ← field "request_id" deserializeString values
  let snapshotId ← field "snapshot_id" deserializeString values
  let goal ← field "goal" (deserializeProofGoal false) values
  let nodes ← field "nodes" (deserializeVec (deserializeEvidenceNode false)) values
  let edges ← field "edges" (deserializeVec (deserializeEvidenceEdge false)) values
  let conflicts ← field "conflicts" (deserializeVec deserializeConflict) values
  return { protocolVersion, requestId, snapshotId, goal, nodes, edges, conflicts }

/-- Messages of the host to its worker. -/
inductive HostMessage where
  | hello (protocolVersion : Int)
  | evaluate (request : KernelRequest)

def serializeHostMessage : HostMessage → Json
  | .hello protocolVersion =>
    .assoc [("kind", .string "hello"), ("protocol_version", .int protocolVersion)]
  | .evaluate request =>
    .assoc [("kind", .string "evaluate"), ("request", serializeKernelRequest request)]

/-! ### Responses -/

def serializeGap (gap : Gap) : Json :=
  .assoc ([("code", serializeGapCode gap.code)] ++
    optionalField "from_node_id" (gap.fromNodeId.map .string) ++
    optionalField "to_kind" (gap.toKind.map serializeNodeKind))

def gapNames : List String := ["code", "from_node_id", "to_kind"]

def deserializeGap (buffered : Bool) (json : Json) : Option Gap := do
  let values ← structFields gapNames json
  let code ← field "code" (deserializeGapCode buffered) values
  let fromNodeId ← optionField "from_node_id" deserializeString values
  let toKind ← optionField "to_kind" (deserializeNodeKind buffered) values
  return { code, fromNodeId, toKind }

def serializeProofChain (chain : ProofChain) : Json :=
  .assoc [("node_ids", strings chain.nodeIds), ("edge_ids", strings chain.edgeIds),
    ("rule_ids", strings chain.ruleIds)]

def proofChainNames : List String := ["node_ids", "edge_ids", "rule_ids"]

def deserializeProofChain (json : Json) : Option ProofChain := do
  let values ← structFields proofChainNames json
  let nodeIds ← field "node_ids" (deserializeVec deserializeString) values
  let edgeIds ← field "edge_ids" (deserializeVec deserializeString) values
  let ruleIds ← field "rule_ids" (deserializeVec deserializeString) values
  return { nodeIds, edgeIds, ruleIds }

def serializeProofResult (proof : ProofResult) : Json :=
  .assoc [("verdict", serializeVerdict proof.verdict),
    ("proof_chains", .list (proof.proofChains.map serializeProofChain)),
    ("gaps", .list (proof.gaps.map serializeGap)),
    ("conflicts", .list (proof.conflicts.map serializeConflict))]

def proofResultNames : List String := ["verdict", "proof_chains", "gaps", "conflicts"]

def deserializeProofResult (buffered : Bool) (json : Json) : Option ProofResult := do
  let values ← structFields proofResultNames json
  let verdict ← field "verdict" (deserializeVerdict buffered) values
  let proofChains ← field "proof_chains" (deserializeVec deserializeProofChain) values
  let gaps ← field "gaps" (deserializeVec (deserializeGap buffered)) values
  let conflicts ← field "conflicts" (deserializeVec deserializeConflict) values
  return { verdict, proofChains, gaps, conflicts }

def serializeProtocolError (error : ProtocolError) : Json :=
  .assoc [("code", serializeErrorCode error.code), ("message", .string error.message)]

def protocolErrorNames : List String := ["code", "message"]

def deserializeProtocolError (buffered : Bool) (json : Json) : Option ProtocolError := do
  let values ← structFields protocolErrorNames json
  let code ← field "code" (deserializeErrorCode buffered) values
  let message ← field "message" deserializeString values
  return { code, message }

def serializeKernelResponse : KernelResponse → Json
  | .proof protocolVersion requestId snapshotId proof =>
    .assoc [("status", .string "proof"), ("protocol_version", .int protocolVersion),
      ("request_id", .string requestId), ("snapshot_id", .string snapshotId),
      ("proof", serializeProofResult proof)]
  | .error protocolVersion requestId error =>
    .assoc [("status", .string "error"), ("protocol_version", .int protocolVersion),
      ("request_id", .string requestId), ("error", serializeProtocolError error)]

def proofResponseNames : List String := ["protocol_version", "request_id", "snapshot_id", "proof"]

def deserializeProofResponse (json : Json) : Option KernelResponse := do
  let values ← structFields proofResponseNames json
  let protocolVersion ← field "protocol_version" deserializeU16 values
  let requestId ← field "request_id" deserializeString values
  let snapshotId ← field "snapshot_id" deserializeString values
  let proof ← field "proof" (deserializeProofResult true) values
  return .proof protocolVersion requestId snapshotId proof

def errorResponseNames : List String := ["protocol_version", "request_id", "error"]

def deserializeErrorResponse (json : Json) : Option KernelResponse := do
  let values ← structFields errorResponseNames json
  let protocolVersion ← field "protocol_version" deserializeU16 values
  let requestId ← field "request_id" deserializeString values
  let error ← field "error" (deserializeProtocolError true) values
  return .error protocolVersion requestId error

def deserializeKernelResponse : Json → Option KernelResponse :=
  internallyTagged "status" fun name content =>
    if name = "proof" then deserializeProofResponse content
    else if name = "error" then deserializeErrorResponse content
    else none

/-! ### Canonical JSON -/

/-- `canonicalize_value`: the entries of every object are sorted by key, and its children too. -/
def canonicalizeValue (value : Json) : Json := value.sortKeys

/-- The tree that `to_canonical_json` prints. -/
def toCanonicalJson {α : Type} (serialize : α → Json) (value : α) : Json :=
  canonicalizeValue (serialize value)

end Rationale.Wire
