import Rationale.Engine.Evidence
import Rationale.Store.Database

namespace Rationale.Engine

open Rationale.Library Rationale.Store

/-!
# The snapshot identifier

`evidence_snapshot_id` hashes the compact JSON of every record, edge and conflict, the fields of
every diagnostic, and every source without its observation time, each ended by a NUL.

* `jsonString`, `jsonObject` — the compact JSON that `serde_json` writes;
* `nodeJson`, `edgeJson`, `conflictJson` — the three evidence types, absent options skipped;
* `evidenceSnapshotId` — the identifier.
-/

def hexDigit (n : Nat) : Char := Char.ofNat (if n < 10 then 48 + n else 87 + n)

/-- How `serde_json` writes one character of a string. -/
def escapeChar (c : Char) : List Char :=
  if c = '"' then ['\\', '"']
  else if c = '\\' then ['\\', '\\']
  else if c = '\n' then ['\\', 'n']
  else if c = '\r' then ['\\', 'r']
  else if c = '\t' then ['\\', 't']
  else if c.toNat = 8 then ['\\', 'b']
  else if c.toNat = 12 then ['\\', 'f']
  else if c.toNat < 32 then ['\\', 'u', '0', '0', hexDigit (c.toNat / 16), hexDigit (c.toNat % 16)]
  else [c]

def jsonString (text : String) : String :=
  "\"" ++ String.ofList (text.toList.flatMap escapeChar) ++ "\""

/-- One object from its present fields. -/
def jsonObject (fields : List (Option String)) : String :=
  "\x7b" ++ ",".intercalate (fields.filterMap id) ++ "\x7d"

def jsonField (name value : String) : Option String := some ("\"" ++ name ++ "\":" ++ value)

/-- `#[serde(skip_serializing_if = "Option::is_none")]`. -/
def jsonOption (name : String) (value : Option String) : Option String :=
  value.bind fun value => jsonField name (jsonString value)

def nodeKindJson : NodeKind → String
  | .codeTarget => "\"code_target\""
  | .change => "\"change\""
  | .workItem => "\"work_item\""
  | .review => "\"review\""
  | .decision => "\"decision\""
  | .verification => "\"verification\""

def edgeKindJson : EdgeKind → String
  | .introducedBy => "\"introduced_by\""
  | .changedBy => "\"changed_by\""
  | .includedInPr => "\"included_in_pr\""
  | .resolvesIssue => "\"resolves_issue\""
  | .documents => "\"documents\""
  | .supersedes => "\"supersedes\""
  | .verifiedBy => "\"verified_by\""

def statusJson : RecordStatus → String
  | .current => "\"current\""
  | .historical => "\"historical\""

def sourceKindJson : SourceKind → String
  | .git => "\"git\""
  | .github => "\"github\""
  | .document => "\"document\""
  | .verification => "\"verification\""
  | .synthetic => "\"synthetic\""

def originJson (origin : Origin) : String :=
  jsonObject [jsonField "source_kind" (sourceKindJson origin.sourceKind),
    jsonField "locator" (jsonString origin.locator), jsonOption "revision" origin.revision,
    jsonOption "observed_at" origin.observedAt]

def nodeJson (node : EvidenceNode) : String :=
  jsonObject [jsonField "id" (jsonString node.id), jsonField "kind" (nodeKindJson node.kind),
    jsonField "status" (statusJson node.status), jsonOption "subject_id" node.subjectId,
    jsonOption "outcome_id" node.outcomeId, jsonField "origin" (originJson node.origin)]

def edgeJson (edge : EvidenceEdge) : String :=
  jsonObject [jsonField "id" (jsonString edge.id), jsonField "kind" (edgeKindJson edge.kind),
    jsonField "source_id" (jsonString edge.sourceId),
    jsonField "target_id" (jsonString edge.targetId),
    jsonField "status" (statusJson edge.status), jsonField "origin" (originJson edge.origin)]

def conflictJson (conflict : Conflict) : String :=
  jsonObject [jsonField "left_node_id" (jsonString conflict.leftNodeId),
    jsonField "right_node_id" (jsonString conflict.rightNodeId),
    jsonField "rule_id" (jsonString conflict.ruleId)]

def freshnessName : Freshness → String
  | .fresh => "fresh"
  | .stale => "stale"

/-- The part of a source that enters the identifier: everything but its observation time. -/
def sourceMaterial (source : SourceState) : String :=
  source.sourceId ++ "\x00" ++ sourceKindJson source.sourceKind ++ "\x00"
    ++ freshnessName source.freshness ++ "\x00" ++ source.cursor.getD "" ++ "\x00"

/-- The part of the hashed text that the evidence determines. -/
def evidenceMaterial (evidence : PreparedEvidence) : String :=
  "rationale-evidence-snapshot-v2\x00"
    ++ String.join ((values evidence.records).map fun record => nodeJson record ++ "\x00")
    ++ String.join ((values evidence.edges).map fun edge => edgeJson edge ++ "\x00")
    ++ String.join (evidence.conflicts.map fun conflict => conflictJson conflict ++ "\x00")
    ++ String.join (evidence.diagnostics.map fun diagnostic =>
      diagnostic.sourceLocator ++ "\x00" ++ diagnostic.code ++ "\x00" ++ diagnostic.message ++ "\x00")

/-- The text that `evidence_snapshot_id` hashes. -/
def snapshotMaterial (evidence : PreparedEvidence) (sources : List SourceState) : String :=
  evidenceMaterial evidence ++ String.join (sources.map sourceMaterial)

def evidenceSnapshotId (hash : String → String) (evidence : PreparedEvidence)
    (sources : List SourceState) : String :=
  "snapshot:" ++ hash (snapshotMaterial evidence sources)

/-- A source without its observation time. -/
def SourceState.timeless (source : SourceState) : SourceState := { source with observedAt := "" }

theorem sourceMaterial_timeless (source : SourceState) :
    sourceMaterial (SourceState.timeless source) = sourceMaterial source := rfl

/-- Observation times do not enter the identifier. -/
theorem evidenceSnapshotId_timeless {hash : String → String} {evidence : PreparedEvidence}
    {sources : List SourceState} :
    evidenceSnapshotId hash evidence (sources.map SourceState.timeless) =
      evidenceSnapshotId hash evidence sources := by
  have hmap : (sources.map SourceState.timeless).map sourceMaterial =
      sources.map sourceMaterial := by
    rw [List.map_map]
    exact List.map_congr_left (fun source _ => sourceMaterial_timeless source)
  unfold evidenceSnapshotId snapshotMaterial
  rw [hmap]

end Rationale.Engine
