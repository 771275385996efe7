import Rationale.Wire.Exact
import Rationale.Wire.Serde

namespace Rationale.Wire

open Rationale.Library Rationale.Kernel

/-!
# The host writes the kernel's trees

Serde writes the fields of a struct in the order of their declaration, the kernel in the order of
their names.  Sorted, the two trees are the same, field by field.
-/

/-! ### Closed enums -/

@[simp] theorem sortKeys_serializeNodeKind (kind : NodeKind) :
    (serializeNodeKind kind).sortKeys = .string (stringOfNodeKind kind) := by
  cases kind <;> simp [serializeNodeKind, stringOfNodeKind]

@[simp] theorem sortKeys_serializeEdgeKind (kind : EdgeKind) :
    (serializeEdgeKind kind).sortKeys = .string (stringOfEdgeKind kind) := by
  cases kind <;> simp [serializeEdgeKind, stringOfEdgeKind]

@[simp] theorem sortKeys_serializeRecordStatus (status : RecordStatus) :
    (serializeRecordStatus status).sortKeys = .string (stringOfRecordStatus status) := by
  cases status <;> simp [serializeRecordStatus, stringOfRecordStatus]

@[simp] theorem sortKeys_serializeSourceKind (kind : SourceKind) :
    (serializeSourceKind kind).sortKeys = .string (stringOfSourceKind kind) := by
  cases kind <;> simp [serializeSourceKind, stringOfSourceKind]

@[simp] theorem sortKeys_serializeVerdict (verdict : Verdict) :
    (serializeVerdict verdict).sortKeys = .string (stringOfVerdict verdict) := by
  cases verdict <;> simp [serializeVerdict, stringOfVerdict]

@[simp] theorem sortKeys_serializeGapCode (code : GapCode) :
    (serializeGapCode code).sortKeys = .string (stringOfGapCode code) := by
  cases code <;> simp [serializeGapCode, stringOfGapCode]

@[simp] theorem sortKeys_serializeErrorCode (code : ErrorCode) :
    (serializeErrorCode code).sortKeys = .string (stringOfErrorCode code) := by
  cases code <;> simp [serializeErrorCode, stringOfErrorCode]

/-! ### Structs -/

@[simp] theorem sortKeys_serializeOrigin (origin : Origin) :
    (serializeOrigin origin).sortKeys = originToYojson origin := by
  obtain ⟨kind, locator, revision, observedAt⟩ := origin
  apply Json.sortKeys_assoc_eq_object_of_names originNames
  · cases revision <;> cases observedAt <;> simp [originFields, optionalField]
  · cases revision <;> cases observedAt <;> simp [originFields, optionalField, originNames]
  · cases revision <;> cases observedAt <;> simp [optionalField]
  · cases revision <;> cases observedAt <;> simp [optionalField, originNames]
  · cases revision <;> cases observedAt <;>
      simp [originFields, optionalField, originNames, List.lookup_cons]

@[simp] theorem sortKeys_serializeEvidenceNode (node : EvidenceNode) :
    (serializeEvidenceNode node).sortKeys = evidenceNodeToYojson node := by
  obtain ⟨id, kind, status, subjectId, outcomeId, origin⟩ := node
  apply Json.sortKeys_assoc_eq_object_of_names evidenceNodeNames
  · cases subjectId <;> cases outcomeId <;> simp [evidenceNodeFields, optionalField]
  · cases subjectId <;> cases outcomeId <;>
      simp [evidenceNodeFields, optionalField, evidenceNodeNames]
  · cases subjectId <;> cases outcomeId <;> simp [optionalField]
  · cases subjectId <;> cases outcomeId <;> simp [optionalField, evidenceNodeNames]
  · cases subjectId <;> cases outcomeId <;>
      simp [evidenceNodeFields, optionalField, evidenceNodeNames, List.lookup_cons]

@[simp] theorem sortKeys_serializeEvidenceEdge (edge : EvidenceEdge) :
    (serializeEvidenceEdge edge).sortKeys = evidenceEdgeToYojson edge := by
  apply Json.sortKeys_assoc_eq_object_of_names evidenceEdgeNames <;>
    simp [evidenceEdgeFields, evidenceEdgeNames, List.lookup_cons]

@[simp] theorem sortKeys_serializeConflict (conflict : Conflict) :
    (serializeConflict conflict).sortKeys = conflictToYojson conflict := by
  apply Json.sortKeys_assoc_eq_object_of_names conflictNames <;>
    simp [conflictFields, conflictNames, List.lookup_cons]

@[simp] theorem sortKeys_serializeProofGoal (goal : ProofGoal) :
    (serializeProofGoal goal).sortKeys = proofGoalToYojson goal := by
  apply Json.sortKeys_assoc_eq_object_of_names proofGoalNames <;>
    simp [proofGoalFields, proofGoalNames, List.lookup_cons]

theorem sortKeys_serializeKernelRequest (request : KernelRequest) :
    (serializeKernelRequest request).sortKeys = kernelRequestToYojson request := by
  apply Json.sortKeys_assoc_eq_object_of_names kernelRequestNames <;>
    simp [kernelRequestFields, kernelRequestNames, List.lookup_cons]

@[simp] theorem sortKeys_serializeGap (gap : Gap) :
    (serializeGap gap).sortKeys = gapToYojson gap := by
  obtain ⟨code, fromNodeId, toKind⟩ := gap
  apply Json.sortKeys_assoc_eq_object_of_names gapNames
  · cases fromNodeId <;> cases toKind <;> simp [gapFields, optionalField]
  · cases fromNodeId <;> cases toKind <;> simp [gapFields, optionalField, gapNames]
  · cases fromNodeId <;> cases toKind <;> simp [optionalField]
  · cases fromNodeId <;> cases toKind <;> simp [optionalField, gapNames]
  · cases fromNodeId <;> cases toKind <;> simp [gapFields, optionalField, gapNames, List.lookup_cons]

@[simp] theorem sortKeys_serializeProofChain (chain : ProofChain) :
    (serializeProofChain chain).sortKeys = proofChainToYojson chain := by
  apply Json.sortKeys_assoc_eq_object_of_names proofChainNames <;>
    simp [proofChainFields, proofChainNames, strings, List.lookup_cons]

@[simp] theorem sortKeys_serializeProofResult (proof : ProofResult) :
    (serializeProofResult proof).sortKeys = proofResultToYojson proof := by
  apply Json.sortKeys_assoc_eq_object_of_names proofResultNames <;>
    simp [proofResultFields, proofResultNames, List.lookup_cons]

@[simp] theorem sortKeys_serializeProtocolError (error : ProtocolError) :
    (serializeProtocolError error).sortKeys = protocolErrorToYojson error := by
  apply Json.sortKeys_assoc_eq_object_of_names protocolErrorNames <;>
    simp [protocolErrorFields, protocolErrorNames, List.lookup_cons]

theorem sortKeys_serializeKernelResponse (response : KernelResponse) :
    (serializeKernelResponse response).sortKeys = kernelResponseToYojson response := by
  cases response with
  | proof =>
    apply Json.sortKeys_assoc_eq_object_of_names ("status" :: proofResponseNames) <;>
      simp [kernelResponseFields, proofResponseNames, List.lookup_cons]
  | error =>
    apply Json.sortKeys_assoc_eq_object_of_names ("status" :: errorResponseNames) <;>
      simp [kernelResponseFields, errorResponseNames, List.lookup_cons]

end Rationale.Wire
