import Std.Data.ExtTreeMap
import Std.Data.ExtTreeSet

namespace Rationale

open Std

/-!
# Protocol v1 — evidence, requests and responses

The types exchanged by the host and the proof kernel (`crates/rationale-model/src/protocol.rs`,
`ocaml/lib/model.ml`).  Both languages declare the same records field by field, so one Lean type
stands for each pair:

* `EvidenceNode` / `EvidenceEdge` / `Conflict` — one normalized snapshot item each;
* `KernelRequest` — a proof goal with a bounded evidence slice;
* `KernelResponse` — a proof result, or a typed protocol error without a verdict.

`protocolVersion` is an `Int`: the kernel reads a machine integer and compares it with `1`.
-/

/-- A `BTreeMap<String, α>`, or OCaml's `Map.Make (String)`: bindings in increasing key order. -/
abbrev StringMap (α : Type) := Std.ExtTreeMap String α compare

/-- A `BTreeSet<String>`, or OCaml's `Set.Make (String)`. -/
abbrev StringSet := Std.ExtTreeSet String compare

/-- Kind of normalized evidence record. -/
inductive NodeKind where
  | codeTarget
  | change
  | workItem
  | review
  | decision
  | verification
  deriving DecidableEq, Repr

/-- Explicit admissible relationship. -/
inductive EdgeKind where
  | introducedBy
  | changedBy
  | includedInPr
  | resolvesIssue
  | documents
  | supersedes
  | verifiedBy
  deriving DecidableEq, Repr

/-- Current or historical evidence status. -/
inductive RecordStatus where
  | current
  | historical
  deriving DecidableEq, Repr

/-- Origin system for evidence. -/
inductive SourceKind where
  | git
  | github
  | document
  | verification
  | synthetic
  deriving DecidableEq, Repr

/-- Stable citation back to the source of a record or relationship. -/
structure Origin where
  sourceKind : SourceKind
  locator : String
  revision : Option String
  observedAt : Option String
  deriving DecidableEq, Repr

/-- A normalized evidence node. -/
structure EvidenceNode where
  id : String
  kind : NodeKind
  status : RecordStatus
  subjectId : Option String
  outcomeId : Option String
  origin : Origin
  deriving DecidableEq, Repr

/-- A normalized admissible edge. -/
structure EvidenceEdge where
  id : String
  kind : EdgeKind
  sourceId : String
  targetId : String
  status : RecordStatus
  origin : Origin
  deriving DecidableEq, Repr

/-- Explicit conflict metadata. -/
structure Conflict where
  leftNodeId : String
  rightNodeId : String
  ruleId : String
  deriving DecidableEq, Repr

/-- Left node, then right node, then rule: the key order of conflicts in the kernel, the host's
    sorts and the store's `ORDER BY`. -/
def compareConflicts : Conflict → Conflict → Ordering :=
  compareLex (compareOn Conflict.leftNodeId)
    (compareLex (compareOn Conflict.rightNodeId) (compareOn Conflict.ruleId))

instance : TransCmp compareConflicts :=
  inferInstanceAs (TransCmp (compareLex _ (compareLex _ _)))

instance : LawfulEqCmp compareConflicts where
  eq_of_compare {left right} h := by
    simp only [compareConflicts, compareLex, compareOn, Ordering.then_eq_eq,
      Std.compare_eq_iff_eq] at h
    cases left; cases right; simp_all

/-- Proof objective. -/
structure ProofGoal where
  targetId : String
  anchorKinds : List NodeKind
  deriving DecidableEq, Repr

/-- One bounded request to the kernel. -/
structure KernelRequest where
  protocolVersion : Int
  requestId : String
  snapshotId : String
  goal : ProofGoal
  nodes : List EvidenceNode
  edges : List EvidenceEdge
  conflicts : List Conflict
  deriving DecidableEq, Repr

/-- Proof verdict. -/
inductive Verdict where
  | established
  | partialProof
  | notEstablished
  | conflicted
  deriving DecidableEq, Repr

/-- Typed missing relationship. -/
inductive GapCode where
  | targetToChange
  | changeToReview
  | changeToWorkItem
  | workItemToDecision
  | decisionToVerification
  | noCurrentAnchor
  deriving DecidableEq, Repr

/-- One gap in an incomplete proof. -/
structure Gap where
  code : GapCode
  fromNodeId : Option String
  toKind : Option NodeKind
  deriving DecidableEq, Repr

/-- One machine-checkable proof route. -/
structure ProofChain where
  nodeIds : List String
  edgeIds : List String
  ruleIds : List String
  deriving DecidableEq, Repr

/-- Deterministic proof result. -/
structure ProofResult where
  verdict : Verdict
  proofChains : List ProofChain
  gaps : List Gap
  conflicts : List Conflict
  deriving DecidableEq, Repr

/-- Typed protocol failure code. -/
inductive ErrorCode where
  | unsupportedProtocol
  | invalidRequest
  | missingRecord
  | resourceLimit
  | internal
  deriving DecidableEq, Repr

/-- Protocol failure without a verdict. -/
structure ProtocolError where
  code : ErrorCode
  message : String
  deriving DecidableEq, Repr

/-- Proof or error response. -/
inductive KernelResponse where
  | proof (protocolVersion : Int) (requestId snapshotId : String) (proof : ProofResult)
  | error (protocolVersion : Int) (requestId : String) (error : ProtocolError)
  deriving DecidableEq, Repr

end Rationale
