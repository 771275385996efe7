import Rationale.Docs.Text
import Rationale.EdgeId
import Rationale.Library.KeyedMap
import Rationale.Library.Fallible

namespace Rationale.Docs

open Std Rationale.Library Rationale.Text

/-!
# Document ingestion

`crates/rationale-docs/src/lib.rs`: from a batch of documents to normalized records.

* `normalizeMarkdown`, `parseVerification` — one document to one record with its relationships;
* `ingest` — a batch, in path order, with a diagnostic for every input left out.

The structured text formats are read by other crates.  `Parsers` holds what they compute, and
`hash` stands for `blake3::hash(..).to_hex()`.
-/

/-- One repository document supplied to deterministic ingestion. -/
structure DocumentInput where
  path : String
  content : String
  deriving DecidableEq, Repr

/-- Resource bounds and identifier policy for document ingestion. -/
structure IngestConfig where
  maxFileBytes : Nat
  maxDocuments : Nat
  idPatterns : IdPatterns

def IngestConfig.default : IngestConfig := ⟨1024 * 1024, 10000, IdPatterns.default⟩

/-- Sanitized reason one input was excluded from normalized evidence. -/
structure IngestDiagnostic where
  sourceLocator : String
  code : String
  message : String
  deriving DecidableEq, Repr

/-- The derived order of diagnostics: field by field. -/
def compareDiagnostics : IngestDiagnostic → IngestDiagnostic → Ordering :=
  compareLex (compareOn IngestDiagnostic.sourceLocator)
    (compareLex (compareOn IngestDiagnostic.code) (compareOn IngestDiagnostic.message))

instance : TransCmp compareDiagnostics :=
  inferInstanceAs (TransCmp (compareLex _ (compareLex _ _)))

instance : LawfulEqCmp compareDiagnostics where
  eq_of_compare {left right} h := by
    simp only [compareDiagnostics, compareLex, compareOn, Ordering.then_eq_eq,
      Std.compare_eq_iff_eq] at h
    cases left; cases right; simp_all

/-- Deterministic normalized output of one document batch. -/
structure IngestResult where
  records : List EvidenceNode
  edges : List EvidenceEdge
  conflicts : List Conflict
  diagnostics : List IngestDiagnostic

structure ParsedInput where
  node : EvidenceNode
  edges : List EvidenceEdge
  conflicts : List Conflict

inductive MetadataKind where
  | workItem
  | decision
  | verification
  deriving DecidableEq, Repr

/-- `From<MetadataKind> for NodeKind`. -/
def MetadataKind.toNodeKind : MetadataKind → NodeKind
  | .workItem => .workItem
  | .decision => .decision
  | .verification => .verification

structure ConflictMetadata where
  with_ : String
  ruleId : String

structure RationaleMetadata where
  id : String
  kind : Option MetadataKind
  subjectId : Option String
  outcomeId : Option String
  status : String
  documents : List String
  supersedes : List String
  verifiedBy : List String
  conflicts : List ConflictMetadata

structure VerificationMetadata where
  id : String
  artifact : String
  targets : List String
  status : String

structure VerificationManifest where
  version : Nat
  verification : VerificationMetadata

/-- What `decode_rationale` can find in a metadata block. -/
inductive DecodedRationale where
  /-- The block is not valid YAML or TOML. -/
  | malformed
  /-- The block has no `rationale` entry. -/
  | absent
  /-- The `rationale` entry does not have the metadata's shape. -/
  | invalid
  | metadata (metadata : RationaleMetadata)

/-- The text formats that other crates parse. -/
structure Parsers where
  /-- The `rationale` entry of a YAML or TOML block, decoded. -/
  rationale : FrontMatterKind → String → DecodedRationale
  /-- A YAML or TOML verification manifest, decoded. -/
  verification : FrontMatterKind → String → Option VerificationManifest
  /-- The texts, code spans and link targets of a Markdown body, in order. -/
  markdown : String → List String

def diagnostic (path code message : String) : IngestDiagnostic := ⟨path, code, message⟩

/-- Every later check of a document reports under one code. -/
def withCode {α : Type} (code : String) (result : Except String α) : Except ParseFailure α :=
  result.mapError (code, ·)

section Normalize

variable (hash : String → String) (parsers : Parsers)

/-- The identifier keeps the first 24 digits of the hash. -/
def edge (kind : EdgeKind) (sourceId targetId : String) (status : RecordStatus) (origin : Origin) :
    EvidenceEdge :=
  hashedEdge hash (fun hex => String.ofList (hex.toList.take 24)) kind sourceId targetId status origin

/-- The edges of a document in identifier order, one for each identifier. -/
def sortEdges (edges : List EvidenceEdge) : List EvidenceEdge :=
  dedupBy (fun left right => left.id == right.id) (sortBy (compareOn EvidenceEdge.id) edges)

def markdownIdentifiers (body : String) (patterns : IdPatterns) : List String :=
  sortUniq compare ((parsers.markdown body).flatMap (findIdentifiers · patterns))

/-- Edges of one kind to a list of targets, the first invalid target failing. -/
def edgesTo (code : String) (mk : String → EvidenceEdge) (targets : List String) :
    Except ParseFailure (List EvidenceEdge) :=
  targets.mapM fun target => do
    withCode code (validateId target)
    return mk target

def normalizeConflict (nodeId : String) (conflict : ConflictMetadata) :
    Except ParseFailure Conflict := do
  withCode "invalid_rationale" (validateId conflict.with_)
  if isBlank conflict.ruleId then
    .error ("invalid_rationale", "conflict rule_id must not be empty")
  else .ok ⟨nodeId, conflict.with_, conflict.ruleId⟩

def markdownKind (patterns : IdPatterns) (metadata : RationaleMetadata) :
    Except ParseFailure NodeKind :=
  match metadata.kind with
  | some kind => .ok kind.toNodeKind
  | none => match patterns.kind metadata.id with
    | some kind => .ok kind
    | none => .error ("invalid_rationale",
        "record kind cannot be inferred from its configured identifier prefix")

def normalizeMarkdown (path body : String) (patterns : IdPatterns) (metadata : RationaleMetadata) :
    Except ParseFailure ParsedInput := do
  withCode "invalid_rationale" (validateId metadata.id)
  let nodeKind ← markdownKind patterns metadata
  let status ← parseStatus metadata.status
  let origin : Origin := ⟨.document, path ++ "#rationale", none, none⟩
  let node : EvidenceNode :=
    ⟨metadata.id, nodeKind, status, metadata.subjectId, metadata.outcomeId, origin⟩
  let documentTargets := (sortUniq compare
    (metadata.documents ++ markdownIdentifiers parsers body patterns)).filter (· ≠ node.id)
  let documents ← edgesTo "invalid_rationale"
    (edge hash .documents node.id · status origin) documentTargets
  let supersedes ← edgesTo "invalid_rationale"
    (edge hash .supersedes node.id · status origin) metadata.supersedes
  let verifiedBy ← edgesTo "invalid_rationale"
    (edge hash .verifiedBy node.id · status origin) metadata.verifiedBy
  let conflicts ← metadata.conflicts.mapM (normalizeConflict node.id)
  return ⟨node, sortEdges (documents ++ supersedes ++ verifiedBy),
    sortBy compareConflicts conflicts⟩

def parseMarkdown (path source : String) (patterns : IdPatterns) :
    Except ParseFailure (Option ParsedInput) := do
  match ← frontMatter source.toList with
  | none => return none
  | some (kind, metadata, body) =>
    validateStructuralNesting metadata
    match parsers.rationale kind (String.ofList metadata) with
    | .malformed => .error ("invalid_front_matter", match kind with
        | .yaml => "YAML front matter is invalid"
        | .toml => "TOML front matter is invalid")
    | .absent => return none
    | .invalid => .error ("invalid_rationale", "rationale metadata is invalid")
    | .metadata metadata =>
      return some (← normalizeMarkdown hash parsers path (String.ofList body) patterns metadata)

def parseVerification (path source : String) : Except ParseFailure (Option ParsedInput) := do
  validateStructuralNesting source.toList
  let kind : FrontMatterKind := if hasExtension path "toml" then .toml else .yaml
  match parsers.verification kind source with
  | none => .error ("invalid_verification", match kind with
      | .toml => "TOML verification manifest is invalid"
      | .yaml => "YAML verification manifest is invalid")
  | some ⟨version, verification⟩ =>
    if version ≠ 1 then
      .error ("invalid_verification", "verification manifest version must be 1")
    else do
    withCode "invalid_verification" (validateId verification.id)
    if isBlank verification.artifact then
      .error ("invalid_verification", "verification artifact must not be empty")
    else if verification.targets = [] then
      .error ("invalid_verification", "verification must name at least one target")
    else do
    let status ← (parseStatus verification.status).mapError
      fun failure => ("invalid_verification", failure.2)
    let origin : Origin := ⟨.verification, path ++ "#verification", none, none⟩
    let node : EvidenceNode :=
      ⟨verification.id, .verification, status, none, some verification.artifact, origin⟩
    let edges ← edgesTo "invalid_verification"
      (edge hash .verifiedBy · node.id status origin) verification.targets
    return some ⟨node, sortEdges edges, []⟩

/-- The document's record and relationships; `none` when it is not a governed document. -/
def parseDocument (config : IngestConfig) (path content : String) :
    Except ParseFailure (Option ParsedInput) :=
  if isVerificationManifest path then parseVerification hash parsers path content
  else if hasExtension path "md" then parseMarkdown hash parsers path content config.idPatterns
  else .ok none

/-- The accumulators of `ingest`. -/
structure IngestState where
  records : StringMap EvidenceNode
  edges : StringMap EvidenceEdge
  conflicts : List Conflict
  diagnostics : List IngestDiagnostic

def IngestState.empty : IngestState := ⟨∅, ∅, [], []⟩

def IngestState.report (state : IngestState) (item : IngestDiagnostic) : IngestState :=
  { state with diagnostics := state.diagnostics ++ [item] }

/-- Add a parsed document, unless its identifier already names a different record. -/
def IngestState.accept (state : IngestState) (path : String) (parsed : ParsedInput) : IngestState :=
  let add (records : StringMap EvidenceNode) : IngestState :=
    { state with
      records
      edges := insertAll EvidenceEdge.id state.edges parsed.edges
      conflicts := state.conflicts ++ parsed.conflicts }
  match state.records[parsed.node.id]? with
  | some existing =>
      if existing ≠ parsed.node then
        state.report (diagnostic path "duplicate_record"
          "record identifier is already defined by another document")
      else add state.records
  | none => add (state.records.insert parsed.node.id parsed.node)

/-- One turn of the loop of `ingest`. -/
def ingestOne (config : IngestConfig) (state : IngestState) (input : DocumentInput × Nat) :
    IngestState :=
  let (input, index) := input
  if index ≥ config.maxDocuments then
    state.report (diagnostic input.path "document_limit"
      "document batch exceeds the configured input limit")
  else if input.content.utf8ByteSize > config.maxFileBytes then
    state.report (diagnostic input.path "file_too_large"
      "document exceeds the configured byte limit")
  else match normalizePath input.path with
  | .error message => state.report (diagnostic input.path "invalid_path" message)
  | .ok path => match parseDocument hash parsers config path input.content with
    | .error (code, message) => state.report (diagnostic path code message)
    | .ok none => state
    | .ok (some parsed) => state.accept path parsed

/-- Parse a batch without aborting valid inputs when another is malformed. -/
def ingest (config : IngestConfig) (inputs : List DocumentInput) : IngestResult :=
  let inputs := sortBy (compareOn DocumentInput.path) inputs
  let state := inputs.zipIdx.foldl (ingestOne hash parsers config) IngestState.empty
  { records := values state.records
    edges := values state.edges
    conflicts := dedupBy (· == ·) (sortBy compareConflicts state.conflicts)
    diagnostics := sortBy compareDiagnostics state.diagnostics }

end Normalize

end Rationale.Docs
