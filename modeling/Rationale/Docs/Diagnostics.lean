import Rationale.Docs.Definitions

namespace Rationale.Docs

open Std Rationale.Library Rationale.Text

/-!
# What ingestion reports

Every diagnostic of a batch has one of a few codes and a fixed message, whatever the documents
contain.

* `Fixed` — a code of `documentCodes`, and a message without a NUL;
* `fixed_parseDocument` — every check of a document fails with such a code and message;
* `reported_ingest` — and so does every input that is left out.
-/

/-- The codes of ingestion. -/
def documentCodes : List String :=
  ["document_limit", "file_too_large", "invalid_path", "duplicate_record", "structured_nesting",
    "invalid_front_matter", "invalid_rationale", "invalid_verification"]

/-- A message without a NUL. -/
def PlainMessage (message : String) : Prop := '\x00' ∉ message.toList

instance (message : String) : Decidable (PlainMessage message) :=
  inferInstanceAs (Decidable (¬ _))

/-- A code of ingestion with a plain message. -/
structure Fixed (failure : ParseFailure) : Prop where
  code : failure.1 ∈ documentCodes
  message : PlainMessage failure.2

section Parse

variable {hash : String → String} {parsers : Parsers}

theorem plain_validateId (id : String) : FailsWith PlainMessage (validateId id) := by
  unfold validateId
  split
  · exact failsWith_error (by decide)
  split
  · exact failsWith_ok ()
  · exact failsWith_error (by decide)

theorem fixed_withCode {α : Type} {code : String} {result : Except String α}
    (hcode : code ∈ documentCodes) (h : FailsWith PlainMessage result) :
    FailsWith Fixed (withCode code result) :=
  h.mapError (fun _ hmessage => ⟨hcode, hmessage⟩)

theorem fixed_frontMatter (source : List Char) : FailsWith Fixed (frontMatter source) := by
  unfold frontMatter
  split
  · exact failsWith_ok none
  dsimp only
  cases splitAtDelimiter _ (splitInclusive _) with
  | none =>
    have hfixed : Fixed ("invalid_front_matter", "front matter has no closing delimiter") :=
      ⟨by decide, by decide⟩
    split_ifs
    · exact failsWith_error hfixed
    · exact failsWith_error hfixed
    · exact failsWith_ok none
  | some split =>
    split_ifs
    all_goals exact failsWith_ok _

theorem fixed_validateStructuralNesting (source : List Char) :
    FailsWith Fixed (validateStructuralNesting source) := by
  unfold validateStructuralNesting
  split
  · exact failsWith_ok ()
  · exact failsWith_error ⟨by decide, by decide⟩

theorem fixed_parseStatus (status : String) : FailsWith Fixed (parseStatus status) := by
  unfold parseStatus
  split
  · exact failsWith_ok _
  split
  · exact failsWith_ok _
  · exact failsWith_error ⟨by decide, by decide⟩

theorem fixed_edgesTo {code : String} (hcode : code ∈ documentCodes) (mk : String → EvidenceEdge)
    (targets : List String) : FailsWith Fixed (edgesTo code mk targets) := by
  refine failsWith_mapM (fun target => ?_) targets
  exact (fixed_withCode hcode (plain_validateId target)).bind (fun _ => failsWith_ok (mk target))

theorem fixed_normalizeConflict (nodeId : String) (conflict : ConflictMetadata) :
    FailsWith Fixed (normalizeConflict nodeId conflict) := by
  refine (fixed_withCode (by decide) (plain_validateId conflict.with_)).bind (fun _ => ?_)
  split
  · exact failsWith_error ⟨by decide, by decide⟩
  · exact failsWith_ok _

theorem fixed_markdownKind (patterns : IdPatterns) (metadata : RationaleMetadata) :
    FailsWith Fixed (markdownKind patterns metadata) := by
  unfold markdownKind
  split
  · exact failsWith_ok _
  split
  · exact failsWith_ok _
  · exact failsWith_error ⟨by decide, by decide⟩

theorem fixed_normalizeMarkdown (path body : String) (patterns : IdPatterns)
    (metadata : RationaleMetadata) :
    FailsWith Fixed (normalizeMarkdown hash parsers path body patterns metadata) := by
  have hcode : "invalid_rationale" ∈ documentCodes := by decide
  -- one rule for each check, in the order of the source
  refine (fixed_withCode hcode (plain_validateId metadata.id)).bind (fun _ => ?_)
  refine (fixed_markdownKind patterns metadata).bind (fun nodeKind => ?_)
  refine (fixed_parseStatus metadata.status).bind (fun status => ?_)
  refine (fixed_edgesTo hcode _ _).bind (fun documents => ?_)
  refine (fixed_edgesTo hcode _ _).bind (fun supersedes => ?_)
  refine (fixed_edgesTo hcode _ _).bind (fun verifiedBy => ?_)
  refine (failsWith_mapM (fixed_normalizeConflict metadata.id) _).bind (fun conflicts => ?_)
  exact failsWith_ok _

theorem fixed_parseMarkdown (path source : String) (patterns : IdPatterns) :
    FailsWith Fixed (parseMarkdown hash parsers path source patterns) := by
  refine (fixed_frontMatter source.toList).bind (fun front? => ?_)
  split
  · exact failsWith_ok none
  · next kind metadata body =>
    refine (fixed_validateStructuralNesting metadata).bind (fun _ => ?_)
    split
    · cases kind <;> exact failsWith_error ⟨by decide, by decide⟩
    · exact failsWith_ok none
    · exact failsWith_error ⟨by decide, by decide⟩
    · exact (fixed_normalizeMarkdown _ _ _ _).bind (fun parsed => failsWith_ok _)

theorem fixed_parseVerification (path source : String) :
    FailsWith Fixed (parseVerification hash parsers path source) := by
  have hcode : "invalid_verification" ∈ documentCodes := by decide
  refine (fixed_validateStructuralNesting source.toList).bind (fun _ => ?_)
  dsimp only
  generalize (if hasExtension path "toml" = true then FrontMatterKind.toml
    else FrontMatterKind.yaml) = kind
  split
  · cases kind <;> exact failsWith_error ⟨by decide, by decide⟩
  split
  · exact failsWith_error ⟨by decide, by decide⟩
  refine (fixed_withCode hcode (plain_validateId _)).bind (fun _ => ?_)
  split
  · exact failsWith_error ⟨by decide, by decide⟩
  split
  · exact failsWith_error ⟨by decide, by decide⟩
  -- a status is reported under the manifest's code
  refine ((fixed_parseStatus _).mapError (fun _ h => ⟨hcode, h.message⟩)).bind (fun status => ?_)
  exact (fixed_edgesTo hcode _ _).bind (fun edges => failsWith_ok _)

/-- **Every check of a document** fails with a known code and a plain message. -/
theorem fixed_parseDocument (config : IngestConfig) (path content : String) :
    FailsWith Fixed (parseDocument hash parsers config path content) := by
  unfold parseDocument
  split
  · exact fixed_parseVerification path content
  split
  · exact fixed_parseMarkdown path content config.idPatterns
  · exact failsWith_ok none

theorem plain_normalizeComponents (parts : List (List Char)) :
    FailsWith PlainMessage (normalizeComponents parts) := by
  induction parts with
  | nil => exact failsWith_ok []
  | cons part parts ih =>
    unfold normalizeComponents
    split
    · exact ih
    split
    · exact failsWith_error (by decide)
    split
    · exact failsWith_error (by decide)
    · -- a part that is kept leaves the error of the others as it is
      intro message h
      cases hparts : normalizeComponents parts with
      | error failure =>
        rw [hparts] at h
        rw [← Except.error.inj h]
        exact ih failure hparts
      | ok rest =>
        rw [hparts] at h
        exact nomatch h

theorem plain_normalizePath (path : String) : FailsWith PlainMessage (normalizePath path) := by
  unfold normalizePath
  split
  · exact failsWith_error (by decide)
  split
  · next h => exact failsWith_error (plain_normalizeComponents _ _ h)
  · exact failsWith_error (by decide)
  · exact failsWith_ok _

end Parse

/-! ### A batch -/

/-- A diagnostic of ingestion: a known code and a plain message. -/
def Reported (item : IngestDiagnostic) : Prop := Fixed (item.code, item.message)

section Batch

variable {hash : String → String} {parsers : Parsers} {config : IngestConfig}

theorem reported_diagnostic {code message : String} (path : String) (hcode : code ∈ documentCodes)
    (hmessage : PlainMessage message) : Reported (diagnostic path code message) :=
  ⟨hcode, hmessage⟩

theorem reported_report {state : IngestState} (h : ∀ item ∈ state.diagnostics, Reported item)
    {item : IngestDiagnostic} (hitem : Reported item) :
    ∀ other ∈ (state.report item).diagnostics, Reported other := by
  intro other hother
  rcases List.mem_append.mp hother with hold | hnew
  · exact h other hold
  · rwa [List.mem_singleton.mp hnew]

theorem reported_accept {state : IngestState} (h : ∀ item ∈ state.diagnostics, Reported item)
    (path : String) (parsed : ParsedInput) :
    ∀ other ∈ (state.accept path parsed).diagnostics, Reported other := by
  unfold IngestState.accept
  dsimp only
  split
  · split
    · exact reported_report h (reported_diagnostic path (by decide) (by decide))
    · exact h
  · exact h

/-- One turn of the loop reports what its input fails with. -/
theorem reported_ingestOne {state : IngestState} (h : ∀ item ∈ state.diagnostics, Reported item)
    (input : DocumentInput × Nat) :
    ∀ item ∈ (ingestOne hash parsers config state input).diagnostics, Reported item := by
  unfold ingestOne
  dsimp only
  split
  · exact reported_report h (reported_diagnostic _ (by decide) (by decide))
  split
  · exact reported_report h (reported_diagnostic _ (by decide) (by decide))
  split
  · next hpath =>
    exact reported_report h (reported_diagnostic _ (by decide) (plain_normalizePath _ _ hpath))
  split
  · next hparse =>
    have hfixed := fixed_parseDocument config _ _ _ hparse
    exact reported_report h (reported_diagnostic _ hfixed.code hfixed.message)
  · exact h
  · exact reported_accept h _ _

/-- **Every diagnostic of a batch** has a known code and a plain message. -/
theorem reported_ingest (inputs : List DocumentInput) :
    ∀ item ∈ (ingest hash parsers config inputs).diagnostics, Reported item := by
  have hloop : ∀ (batch : List (DocumentInput × Nat)) (state : IngestState),
      (∀ item ∈ state.diagnostics, Reported item) →
        ∀ item ∈ (batch.foldl (ingestOne hash parsers config) state).diagnostics, Reported item := by
    intro batch
    induction batch with
    | nil => exact fun _ h => h
    | cons input batch ih => exact fun state h => ih _ (reported_ingestOne h input)
  intro item hitem
  have hsorted := mem_sortBy.mp hitem
  exact hloop _ _ (fun item hnone => absurd hnone List.not_mem_nil) item hsorted

end Batch

end Rationale.Docs
