import Rationale.Engine.SyncRun

namespace Rationale.Engine

open Std Rationale.Library Rationale.Docs Rationale.Git Rationale.Store

/-!
# Local evidence, entry by entry

What a call publishes of its documents and commits.

* `batchEdges`, `SameRelation` — every local relationship, and when two are the same apart from
  their status;
* `getElem?_localRecords` — commits define their identifiers, and documents the others;
* `documents_of_sameRelation` — the same relation in two calls comes from the same document, or is
  one edge;
* `mem_edges_local` — the published relationships are those with published ends.
-/

/-- Edges of one kind, between the same records and with the same locator. -/
structure SameRelation (e e' : EvidenceEdge) : Prop where
  kind : e.kind = e'.kind
  source : e.sourceId = e'.sourceId
  target : e.targetId = e'.targetId
  locator : e.origin.locator = e'.origin.locator

/-- The identifier of an edge determines its kind, its ends and its locator. -/
def DerivedIds (edges : List EvidenceEdge) : Prop :=
  ∀ e ∈ edges, ∀ e' ∈ edges, e.id = e'.id → SameRelation e e'

/-- A single edge has its identifier for itself. -/
theorem derivedIds_of_forall_eq {edge : EvidenceEdge} {edges : List EvidenceEdge}
    (h : ∀ e ∈ edges, e = edge) : DerivedIds edges := by
  intro e he e' he' _
  rw [h e he, h e' he']
  exact ⟨rfl, rfl, rfl, rfl⟩

section Batches

variable (hash : String → String) (parsers : Parsers)

/-- A commit has this identifier. -/
def CommitId (commits : List CommitEvidence) (id : String) : Prop :=
  ∃ commit ∈ commits, commit.id = id

instance (commits : List CommitEvidence) (id : String) : Decidable (CommitId commits id) :=
  inferInstanceAs (Decidable (∃ commit ∈ commits, commit.id = id))

/-- The governed documents of a call. -/
def governedDocuments (inputs : LocalInputs) : List ParsedInput :=
  parsedInputs hash parsers IngestConfig.default inputs.documents

/-- Every relationship that the documents and commits of a call propose. -/
def batchEdges (inputs : LocalInputs) : List EvidenceEdge :=
  relationships (governedDocuments hash parsers inputs) ++
    inputs.history.commits.flatMap (commitReferenceEdges hash)

/-- Both ends of a relationship are published by the call. -/
def EndsPublished (inputs : LocalInputs) (e : EvidenceEdge) : Prop :=
  LocalId inputs.history.commits (ingestedDocuments hash parsers inputs) e.sourceId ∧
    LocalId inputs.history.commits (ingestedDocuments hash parsers inputs) e.targetId

instance (inputs : LocalInputs) (e : EvidenceEdge) :
    Decidable (EndsPublished hash parsers inputs e) :=
  inferInstanceAs (Decidable (_ ∧ _))

end Batches

/-! ### Locators -/

section Locators

/-- No document has the locator of a commit message. -/
theorem documentOrigin_locator_ne {origin : Origin} (h : DocumentOrigin origin) (id : String) :
    origin.locator ≠ "commit:" ++ id ++ "#message" := by
  intro heq
  have hrev := congrArg (fun s : String => (s.toList.reverse.drop 1).head?) heq
  cases h with
  | markdown path => simp at hrev
  | verification path => simp at hrev

end Locators

/-! ### The evidence of a batch -/

section Evidence

variable {hash : String → String} {timestamp : Int → Option String} {parsers : Parsers}
  {inputs before after : LocalInputs} {e e' : EvidenceEdge}

/-- Commits define their identifiers, the last one first, and documents the others. -/
theorem getElem?_localRecords (id : String) :
    (prepareLocalSync hash timestamp parsers inputs).evidence.records[id]? =
      ((inputs.history.commits.map (commitNode timestamp)).reverse.find? (·.id = id)).or
        (definition (governedDocuments hash parsers inputs) id) := by
  show (localRecords timestamp inputs.history.commits (ingestedDocuments hash parsers inputs))[id]? = _
  unfold localRecords
  rw [getElem?_insertAll]
  congr 1
  exact getElem?_ingest_records id

theorem find?_commitNode_eq_none {commits : List CommitEvidence} {id : String} :
    (commits.map (commitNode timestamp)).reverse.find? (·.id = id) = none ↔
      ¬ CommitId commits id := by
  rw [List.find?_eq_none]
  unfold CommitId
  constructor
  · rintro h ⟨commit, hcommit, hid⟩
    have hnode : commitNode timestamp commit ∈ (commits.map (commitNode timestamp)).reverse :=
      List.mem_reverse.mpr (List.mem_map_of_mem hcommit)
    exact h _ hnode (decide_eq_true hid)
  · intro h node hnode hid
    obtain ⟨commit, hcommit, rfl⟩ := List.mem_map.mp (List.mem_reverse.mp hnode)
    exact h ⟨commit, hcommit, of_decide_eq_true hid⟩

/-- A document whose identifier no commit has contributes its record. -/
theorem mem_records_of_accepted {d : ParsedInput}
    (hd : d ∈ accepted (governedDocuments hash parsers inputs))
    (hid : ¬ CommitId inputs.history.commits d.node.id) :
    d.node ∈ values (prepareLocalSync hash timestamp parsers inputs).evidence.records := by
  rw [(prepareLocalSync hash timestamp parsers inputs).evidence.records_keyed.mem_values_iff,
    getElem?_localRecords, find?_commitNode_eq_none.mpr hid, Option.none_or]
  exact definition_eq_some.mpr ⟨d, hd, rfl, rfl⟩

/-- A relationship of a document repeats the document's status and origin. -/
theorem governed_of_accepted {d : ParsedInput}
    (hd : d ∈ accepted (governedDocuments hash parsers inputs)) : Governed hash d :=
  governed_parsedInputs (List.mem_filter.mp hd).1

theorem origin_of_mem_edges {d : ParsedInput}
    (hd : d ∈ accepted (governedDocuments hash parsers inputs)) (he : e ∈ d.edges) :
    e.origin = d.node.origin := by
  rw [(governed_of_accepted hd).edges e he]
  rfl

/-- A relationship of a commit message, written out. -/
theorem exists_of_mem_commitReferenceEdges {commits : List CommitEvidence}
    (h : e ∈ commits.flatMap (commitReferenceEdges hash)) :
    e = evidenceEdge hash e.kind e.sourceId e.targetId
      ⟨.git, "commit:" ++ e.sourceId ++ "#message", some e.sourceId, none⟩ := by
  obtain ⟨commit, -, h⟩ := List.mem_flatMap.mp h
  obtain ⟨reference, -, hedge⟩ := List.mem_filterMap.mp h
  obtain ⟨kind, -, rfl⟩ := Option.map_eq_some_iff.mp hedge
  rfl

/-- What defines an identifier locally is not of GitHub's kind. -/
theorem not_isGithubNode_of_find? {commits : List CommitEvidence} {id : String}
    {node : EvidenceNode}
    (h : (commits.map (commitNode timestamp)).reverse.find? (·.id = id) = some node) :
    isGithubNode node = false := by
  obtain ⟨commit, -, rfl⟩ := List.mem_map.mp (List.mem_reverse.mp (List.mem_of_find?_eq_some h))
  rfl

theorem not_isGithubNode_of_definition {id : String} {node : EvidenceNode}
    (h : definition (governedDocuments hash parsers inputs) id = some node) :
    isGithubNode node = false := by
  obtain ⟨d, hd, rfl, -⟩ := definition_eq_some.mp h
  exact decide_eq_false (not_github_of_documentOrigin (governed_of_accepted hd).origin)

/-- Local relationships are not of GitHub's kind. -/
theorem not_isGithubEdge_of_mem_batchEdges (h : e ∈ batchEdges hash parsers inputs) :
    isGithubEdge e = false := by
  refine decide_eq_false ?_
  rcases List.mem_append.mp h with h | h
  · obtain ⟨d, hd, hedge⟩ := List.mem_flatMap.mp h
    rw [origin_of_mem_edges hd hedge]
    exact not_github_of_documentOrigin (governed_of_accepted hd).origin
  · rw [exists_of_mem_commitReferenceEdges h]
    exact fun h => nomatch h

/-- Two relations that are the same either are one edge, or come from two documents with one
    identifier in one place; those differ in their status at most. -/
theorem documents_of_sameRelation (hsame : SameRelation e e')
    (he : e ∈ batchEdges hash parsers before)
    (he' : e' ∈ batchEdges hash parsers after) :
    e = e' ∨ ∃ d ∈ accepted (governedDocuments hash parsers before),
      ∃ d' ∈ accepted (governedDocuments hash parsers after), e ∈ d.edges ∧ e' ∈ d'.edges ∧
        d.node.id = d'.node.id ∧ d.node.origin = d'.node.origin ∧
        (d.node.status = d'.node.status → e = e') := by
  rcases List.mem_append.mp he with he | he <;> rcases List.mem_append.mp he' with he' | he'
  · -- two documents: the locator names the file, and the file's kind says which end is the record
    obtain ⟨d, hd, hedge⟩ := List.mem_flatMap.mp he
    obtain ⟨d', hd', hedge'⟩ := List.mem_flatMap.mp he'
    have hg := governed_of_accepted hd
    have hg' := governed_of_accepted hd'
    have horigin : d.node.origin = d'.node.origin := by
      apply documentOrigin_eq_of_locator hg.origin hg'.origin
      rw [← origin_of_mem_edges hd hedge, ← origin_of_mem_edges hd' hedge']
      exact hsame.locator
    have hid : d.node.id = d'.node.id := by
      rcases documentOrigin_sourceKind hg.origin with hkind | hkind
      · rw [← hg.source hkind e hedge, ← hg'.source (horigin ▸ hkind) e' hedge']
        exact hsame.source
      · rw [← hg.target hkind e hedge, ← hg'.target (horigin ▸ hkind) e' hedge']
        exact hsame.target
    refine Or.inr ⟨d, hd, d', hd', hedge, hedge', hid, horigin, fun hstatus => ?_⟩
    rw [hg.edges e hedge, hg'.edges e' hedge', hsame.kind, hsame.source, hsame.target, hstatus,
      horigin]
  · -- a document and a commit message have different locators
    obtain ⟨d, hd, hedge⟩ := List.mem_flatMap.mp he
    have hlocator := hsame.locator
    rw [origin_of_mem_edges hd hedge, exists_of_mem_commitReferenceEdges he'] at hlocator
    exact absurd hlocator (documentOrigin_locator_ne (governed_of_accepted hd).origin _)
  · -- the same, the other way round
    obtain ⟨d', hd', hedge'⟩ := List.mem_flatMap.mp he'
    have hlocator := hsame.locator.symm
    rw [origin_of_mem_edges hd' hedge', exists_of_mem_commitReferenceEdges he] at hlocator
    exact absurd hlocator (documentOrigin_locator_ne (governed_of_accepted hd').origin _)
  · -- two commit messages: the source is the commit
    refine Or.inl ?_
    rw [exists_of_mem_commitReferenceEdges he, exists_of_mem_commitReferenceEdges he', hsame.kind,
      hsame.source, hsame.target]

/-- Within one batch identifiers are not shared. -/
theorem DerivedIds.eq_of_id
    (h : DerivedIds (batchEdges hash parsers inputs))
    (he : e ∈ batchEdges hash parsers inputs)
    (he' : e' ∈ batchEdges hash parsers inputs) (hid : e.id = e'.id) :
    e = e' := by
  rcases documents_of_sameRelation (h e he e' he' hid) he he' with heq | hdocuments
  · exact heq
  · obtain ⟨d, hd, d', hd', -, -, hnode, -, heq⟩ := hdocuments
    exact heq (by rw [node_eq_of_accepted hd hd' hnode])

/-- **The relationships of a batch** are those whose ends it publishes. -/
theorem mem_edges_local (h : DerivedIds (batchEdges hash parsers inputs)) :
    e ∈ values (prepareLocalSync hash timestamp parsers inputs).evidence.edges ↔
      e ∈ batchEdges hash parsers inputs ∧
        EndsPublished hash parsers inputs e := by
  have hingested : ∀ e, e ∈ (ingestedDocuments hash parsers inputs).edges ↔
      e ∈ relationships (governedDocuments hash parsers inputs) := by
    intro e
    unfold ingestedDocuments
    rw [ingest_edges]
    refine mem_values_indexBy (fun a ha b hb hid => ?_)
    exact h.eq_of_id (List.mem_append_left _ ha) (List.mem_append_left _ hb) hid
  have hproposed : ∀ e, e ∈ proposedEdges hash inputs.history.commits
        (ingestedDocuments hash parsers inputs) ↔
      e ∈ batchEdges hash parsers inputs := by
    intro e
    unfold proposedEdges batchEdges
    rw [List.mem_append, List.mem_append, hingested]
  show e ∈ values (indexBy EvidenceEdge.id ((proposedEdges hash inputs.history.commits
    (ingestedDocuments hash parsers inputs)).filter (edgeResolved (localRecords timestamp
      inputs.history.commits (ingestedDocuments hash parsers inputs)))) : StringMap EvidenceEdge) ↔ _
  rw [mem_values_indexBy, List.mem_filter, hproposed, edgeResolved_iff, mem_localRecords,
    mem_localRecords]
  · rfl
  · intro a ha b hb hid
    rw [List.mem_filter, hproposed] at ha hb
    exact h.eq_of_id ha.1 hb.1 hid

end Evidence

end Rationale.Engine
