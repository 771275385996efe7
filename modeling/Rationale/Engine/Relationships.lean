import Rationale.Engine.Sync

namespace Rationale.Engine

open Std Rationale.Library Rationale.Docs Rationale.Git Rationale.GitHub

/-!
# Relationships between local and GitHub records

Local relationships are resolved against local records only, before GitHub's records join them.

* `KeepsRelationships` — a combined sync publishes every explicit relationship and conflict whose
  ends it publishes, and reports only those whose ends are missing;
* `EndsAreLocal` — the condition on its inputs: no local relationship leads to a GitHub record;
* `keepsRelationships_iff` — the two are equivalent.
-/

section Sources

variable (commits : List CommitEvidence) (ingested : IngestResult) (contribution : Contribution)

/-- A document or a commit has this identifier. -/
def LocalId (id : String) : Prop :=
  (∃ record ∈ ingested.records, record.id = id) ∨ ∃ commit ∈ commits, commit.id = id

instance (id : String) : Decidable (LocalId commits ingested id) :=
  inferInstanceAs (Decidable (_ ∨ _))

/-- A document, a commit or a GitHub record has this identifier. -/
def CombinedId (id : String) : Prop :=
  LocalId commits ingested id ∨ ∃ record ∈ contribution.records, record.id = id

end Sources

section Published

variable (hash : String → String) (timestamp : Int → Option String)
  (commits : List CommitEvidence) (ingested : IngestResult) (diagnostics : List IngestDiagnostic)
  (contribution : Contribution)

/-- The evidence of a combined sync. -/
def mergedEvidence : PreparedEvidence :=
  mergeGithubEvidence (prepareEvidence hash timestamp commits ingested diagnostics)
    contribution.records contribution.edges

/-- Every explicit relationship, of documents, commits and GitHub. -/
def explicitEdges : List EvidenceEdge :=
  proposedEdges hash commits ingested ++ contribution.edges

/-- **Every relationship inside the snapshot is kept**, and only others are reported. -/
structure KeepsRelationships : Prop where
  edges : ∀ edge ∈ explicitEdges hash commits ingested contribution,
    edge ∈ values (mergedEvidence hash timestamp commits ingested diagnostics contribution).edges ↔
      edgeResolved
        (mergedEvidence hash timestamp commits ingested diagnostics contribution).records edge
  conflicts : ∀ conflict ∈ ingested.conflicts,
    conflict ∈
        (mergedEvidence hash timestamp commits ingested diagnostics contribution).conflicts ↔
      conflictResolved
        (mergedEvidence hash timestamp commits ingested diagnostics contribution).records conflict
  references : ∀ edge ∈ unresolvedEdges hash timestamp commits ingested, ¬ edgeResolved
    (mergedEvidence hash timestamp commits ingested diagnostics contribution).records edge
  unresolvedConflicts : ∀ conflict ∈ unresolvedConflicts timestamp commits ingested,
    ¬ conflictResolved
      (mergedEvidence hash timestamp commits ingested diagnostics contribution).records conflict

/-- Between published records every local relationship and conflict is between local ones, and no
    two relationships share an identifier. -/
structure EndsAreLocal : Prop where
  edges : ∀ edge ∈ proposedEdges hash commits ingested,
    CombinedId commits ingested contribution edge.sourceId →
    CombinedId commits ingested contribution edge.targetId →
    LocalId commits ingested edge.sourceId ∧ LocalId commits ingested edge.targetId
  conflicts : ∀ conflict ∈ ingested.conflicts,
    CombinedId commits ingested contribution conflict.leftNodeId →
    CombinedId commits ingested contribution conflict.rightNodeId →
    LocalId commits ingested conflict.leftNodeId ∧ LocalId commits ingested conflict.rightNodeId
  ids : ∀ left ∈ explicitEdges hash commits ingested contribution,
    ∀ right ∈ explicitEdges hash commits ingested contribution,
    CombinedId commits ingested contribution left.sourceId →
    CombinedId commits ingested contribution left.targetId →
    CombinedId commits ingested contribution right.sourceId →
    CombinedId commits ingested contribution right.targetId → left.id = right.id → left = right

end Published

section Kept

variable {hash : String → String} {timestamp : Int → Option String}
  {commits : List CommitEvidence} {ingested : IngestResult} {diagnostics : List IngestDiagnostic}
  {contribution : Contribution}

theorem mem_localRecords {id : String} :
    id ∈ localRecords timestamp commits ingested ↔ LocalId commits ingested id := by
  unfold localRecords LocalId
  rw [mem_insertAll, mem_indexBy]
  refine or_congr_right ?_
  constructor
  · rintro ⟨node, hnode, rfl⟩
    obtain ⟨commit, hcommit, rfl⟩ := List.mem_map.mp hnode
    exact ⟨commit, hcommit, rfl⟩
  · rintro ⟨commit, hcommit, rfl⟩
    exact ⟨commitNode timestamp commit, List.mem_map_of_mem hcommit, rfl⟩

theorem mem_records_mergedEvidence {id : String} :
    id ∈ (mergedEvidence hash timestamp commits ingested diagnostics contribution).records ↔
      CombinedId commits ingested contribution id := by
  show id ∈ insertNewAll EvidenceNode.id (localRecords timestamp commits ingested)
    contribution.records ↔ _
  rw [mem_insertNewAll, mem_localRecords]
  rfl

/-- The ends of a relationship are published. -/
theorem edgeResolved_mergedEvidence {edge : EvidenceEdge} :
    edgeResolved
        (mergedEvidence hash timestamp commits ingested diagnostics contribution).records edge ↔
      CombinedId commits ingested contribution edge.sourceId ∧
        CombinedId commits ingested contribution edge.targetId := by
  rw [edgeResolved_iff, mem_records_mergedEvidence, mem_records_mergedEvidence]

theorem conflictResolved_mergedEvidence {conflict : Conflict} :
    conflictResolved
        (mergedEvidence hash timestamp commits ingested diagnostics contribution).records conflict ↔
      CombinedId commits ingested contribution conflict.leftNodeId ∧
        CombinedId commits ingested contribution conflict.rightNodeId := by
  rw [conflictResolved_iff, mem_records_mergedEvidence, mem_records_mergedEvidence]

/-- The dropped relationships are those with an end that is not local. -/
theorem mem_unresolvedEdges {edge : EvidenceEdge} :
    edge ∈ unresolvedEdges hash timestamp commits ingested ↔
      edge ∈ proposedEdges hash commits ingested ∧
        ¬ (LocalId commits ingested edge.sourceId ∧ LocalId commits ingested edge.targetId) := by
  unfold unresolvedEdges
  rw [List.mem_filter, Bool.not_eq_true', ← Bool.not_eq_true, edgeResolved_iff, mem_localRecords,
    mem_localRecords]

theorem mem_unresolvedConflicts {conflict : Conflict} :
    conflict ∈ unresolvedConflicts timestamp commits ingested ↔
      conflict ∈ ingested.conflicts ∧ ¬ (LocalId commits ingested conflict.leftNodeId ∧
        LocalId commits ingested conflict.rightNodeId) := by
  unfold unresolvedConflicts
  rw [List.mem_filter, Bool.not_eq_true', ← Bool.not_eq_true, conflictResolved_iff,
    mem_localRecords, mem_localRecords]

/-- The kept conflicts are those between local records. -/
theorem mem_conflicts_mergedEvidence {conflict : Conflict} :
    conflict ∈
        (mergedEvidence hash timestamp commits ingested diagnostics contribution).conflicts ↔
      conflict ∈ ingested.conflicts ∧ LocalId commits ingested conflict.leftNodeId ∧
        LocalId commits ingested conflict.rightNodeId := by
  show conflict ∈ ingested.conflicts.filter _ ↔ _
  rw [List.mem_filter, conflictResolved_iff, mem_localRecords, mem_localRecords]

/-- A published relationship is explicit, and its ends are published. -/
theorem explicit_of_mem_edges {edge : EvidenceEdge}
    (h : edge ∈ values
      (mergedEvidence hash timestamp commits ingested diagnostics contribution).edges) :
    edge ∈ explicitEdges hash commits ingested contribution ∧
      CombinedId commits ingested contribution edge.sourceId ∧
      CombinedId commits ingested contribution edge.targetId := by
  let merged := mergedEvidence hash timestamp commits ingested diagnostics contribution
  have hends := merged.edges_closed edge h
  rw [mem_records_mergedEvidence, mem_records_mergedEvidence] at hends
  refine ⟨?_, hends⟩
  have hget := merged.edges_keyed.mem_values_iff.mp h
  rcases mem_or_of_getElem?_insertNewAll hget with hlocal | ⟨-, hmem, -⟩
  · rcases mem_or_of_getElem?_insertAll hlocal with ⟨hmem, -⟩ | hnone
    · exact List.mem_append_left _ (List.mem_filter.mp hmem).1
    · simp at hnone
  · exact List.mem_append_right _ (List.mem_filter.mp hmem).1

/-- Some relationship is published under the identifier of every local relationship between local
    records, and of every GitHub relationship between published ones. -/
theorem exists_mem_edges {edge : EvidenceEdge}
    (h : edge ∈ proposedEdges hash commits ingested ∧ LocalId commits ingested edge.sourceId ∧
        LocalId commits ingested edge.targetId ∨
      edge ∈ contribution.edges ∧ CombinedId commits ingested contribution edge.sourceId ∧
        CombinedId commits ingested contribution edge.targetId) :
    ∃ stored ∈ values
      (mergedEvidence hash timestamp commits ingested diagnostics contribution).edges,
      stored.id = edge.id := by
  let merged := mergedEvidence hash timestamp commits ingested diagnostics contribution
  refine merged.edges_keyed.mem_iff.mp (mem_insertNewAll.mpr ?_)
  rcases h with ⟨hmem, hends⟩ | ⟨hmem, hends⟩
  · refine Or.inl (mem_indexBy.mpr ⟨edge, List.mem_filter.mpr ⟨hmem, ?_⟩, rfl⟩)
    rw [edgeResolved_iff, mem_localRecords, mem_localRecords]
    exact hends
  · refine Or.inr ⟨edge, List.mem_filter.mpr ⟨hmem, ?_⟩, rfl⟩
    exact edgeResolved_mergedEvidence.mpr hends

/-- The relationships that the snapshot can hold are all in it, when local ones have local ends and
    identifiers are not shared. -/
theorem EndsAreLocal.mem_edges (h : EndsAreLocal hash commits ingested contribution)
    {edge : EvidenceEdge} (hedge : edge ∈ explicitEdges hash commits ingested contribution)
    (hends : CombinedId commits ingested contribution edge.sourceId ∧
      CombinedId commits ingested contribution edge.targetId) :
    edge ∈ values
      (mergedEvidence hash timestamp commits ingested diagnostics contribution).edges := by
  have hsource : edge ∈ proposedEdges hash commits ingested ∧
        LocalId commits ingested edge.sourceId ∧ LocalId commits ingested edge.targetId ∨
      edge ∈ contribution.edges ∧ CombinedId commits ingested contribution edge.sourceId ∧
        CombinedId commits ingested contribution edge.targetId := by
    rcases List.mem_append.mp hedge with hmem | hmem
    · exact Or.inl ⟨hmem, h.edges edge hmem hends.1 hends.2⟩
    · exact Or.inr ⟨hmem, hends⟩
  obtain ⟨stored, hstored, hid⟩ :=
    @exists_mem_edges hash timestamp commits ingested diagnostics contribution edge hsource
  obtain ⟨hexplicit, hsource', htarget'⟩ := explicit_of_mem_edges hstored
  have heq := h.ids stored hexplicit edge hedge hsource' htarget' hends.1 hends.2 hid
  rwa [← heq]

/-- **Relationships of a combined sync.** It keeps every explicit relationship and conflict inside
    the snapshot exactly when no local one needs a GitHub record. -/
theorem keepsRelationships_iff :
    KeepsRelationships hash timestamp commits ingested diagnostics contribution ↔
      EndsAreLocal hash commits ingested contribution := by
  constructor
  · intro h
    refine ⟨fun edge hedge hsource htarget => ?_, fun conflict hconflict hleft hright => ?_,
      fun left hleft right hright hls hlt hrs hrt hid => ?_⟩
    · -- a dropped relationship would be reported although its ends are published
      by_contra hlocal
      have hdropped : edge ∈ unresolvedEdges hash timestamp commits ingested :=
        mem_unresolvedEdges.mpr ⟨hedge, hlocal⟩
      exact h.references edge hdropped (edgeResolved_mergedEvidence.mpr ⟨hsource, htarget⟩)
    · -- a kept conflict has its ends in the local evidence
      have hkept := (h.conflicts conflict hconflict).mpr
        (conflictResolved_mergedEvidence.mpr ⟨hleft, hright⟩)
      exact (mem_conflicts_mergedEvidence.mp hkept).2
    · -- both are published, under one key
      have hl := (h.edges left hleft).mpr (edgeResolved_mergedEvidence.mpr ⟨hls, hlt⟩)
      have hr := (h.edges right hright).mpr (edgeResolved_mergedEvidence.mpr ⟨hrs, hrt⟩)
      have hkeyed :=
        (mergedEvidence hash timestamp commits ingested diagnostics contribution).edges_keyed
      rw [hkeyed.mem_values_iff] at hl hr
      rw [hid, hr] at hl
      exact (Option.some.inj hl).symm
  · -- with local ends, resolved in the merged evidence is resolved in the local one
    intro h
    constructor
    case edges =>
      intro edge hedge
      rw [edgeResolved_mergedEvidence]
      exact ⟨fun hmem => (explicit_of_mem_edges hmem).2, fun hends => h.mem_edges hedge hends⟩
    case conflicts =>
      intro conflict hconflict
      rw [conflictResolved_mergedEvidence, mem_conflicts_mergedEvidence]
      constructor
      · exact fun hkept => ⟨Or.inl hkept.2.1, Or.inl hkept.2.2⟩
      · exact fun hends => ⟨hconflict, h.conflicts conflict hconflict hends.1 hends.2⟩
    case references =>
      intro edge hedge hends
      obtain ⟨hmem, hlocal⟩ := mem_unresolvedEdges.mp hedge
      obtain ⟨hsource, htarget⟩ := edgeResolved_mergedEvidence.mp hends
      exact hlocal (h.edges edge hmem hsource htarget)
    case unresolvedConflicts =>
      intro conflict hconflict hends
      obtain ⟨hmem, hlocal⟩ := mem_unresolvedConflicts.mp hconflict
      obtain ⟨hleft, hright⟩ := conflictResolved_mergedEvidence.mp hends
      exact hlocal (h.conflicts conflict hmem hleft hright)

end Kept

/-! ### A commit that names a GitHub issue -/

/-- A commit whose message says that it resolves issue 42. -/
def fixingCommit : CommitEvidence := ⟨"c0ffee", "Fixes #42", 0, [⟨.issue, "#42"⟩]⟩

/-- GitHub knows issue 42. -/
def issueContribution : Contribution :=
  buildEvidence id ⟨"acme", "widget"⟩
    [⟨42, none, "https://github.com/acme/widget/issues/42", false⟩] (fun _ => [])

/-- The commit and the issue are both published, and their relationship is reported as missing. -/
theorem not_keepsRelationships_fixingCommit :
    ¬ KeepsRelationships id (fun _ => none) [fixingCommit] ⟨[], [], [], []⟩ []
      issueContribution := by
  intro h
  let edge := evidenceEdge id .resolvesIssue "c0ffee" "#42"
    ⟨.git, "commit:c0ffee#message", some "c0ffee", none⟩
  have hdropped : edge ∈ unresolvedEdges id (fun _ => none) [fixingCommit] ⟨[], [], [], []⟩ := by
    decide
  have hends : edgeResolved (mergedEvidence id (fun _ => none) [fixingCommit] ⟨[], [], [], []⟩ []
      issueContribution).records edge = true := by
    decide
  exact h.references edge hdropped hends

end Rationale.Engine
