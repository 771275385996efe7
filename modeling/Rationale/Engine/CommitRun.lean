import Rationale.Engine.LocalEvidence
import Rationale.Engine.Plan

namespace Rationale.Engine

open Std Rationale.Library Rationale.Docs Rationale.Git Rationale.GitHub Rationale.Store

/-!
# Runs over a moving history

Combined synchronizations between which only the commits reachable from `HEAD` change.

* `Project`, `HistoryStep` — what is fixed and what moves;
* `View` — one call, with the identifiers whose records it takes from GitHub;
* `Shows` — what a call publishes, record by record;
* `synced_iff_compatible` — a run goes through exactly when no commit that one call takes from GitHub
  is a local commit of another.
-/

/-- What does not change: the documents, and what GitHub knows. -/
structure Project where
  documents : List DocumentInput
  diagnostics : List IngestDiagnostic
  repository : GitHubRepository
  items : List ApiItem
  pullCommits : Nat → List ApiCommit

/-- How GitHub answers a call. -/
inductive Answer where
  | fetched (cursor : String) (rateLimit : GitHubRateLimitView)
  | notModified (rateLimit : GitHubRateLimitView)
  | failed

/-- What changes from call to call. -/
structure HistoryStep where
  history : CommitHistory
  now : String
  answer : Answer

/-- One call, with the identifiers whose records it takes from GitHub. -/
structure View where
  step : HistoryStep
  github : List String

namespace Project

def inputs (project : Project) (step : HistoryStep) : LocalInputs :=
  ⟨step.history, project.documents, project.diagnostics, step.now⟩

def outcome (project : Project) : Answer → GitHubSyncOutcome
  | .fetched cursor rateLimit => .updated project.items project.pullCommits cursor rateLimit
  | .notModified rateLimit => .notModified rateLimit
  | .failed => .failed

def call (project : Project) (step : HistoryStep) : SyncCall :=
  .online (project.inputs step) project.repository (project.outcome step.answer)

variable (hash : String → String) (parsers : Parsers) (project : Project)

/-- GitHub's records and relationships. -/
def contribution : Contribution :=
  buildEvidence hash project.repository project.items project.pullCommits

/-- GitHub's records are those that were fetched, or those of the call before, unless a document or
    commit has the identifier. -/
def view (before : Option View) (step : HistoryStep) : View :=
  let known : List String := match step.answer with
    | .fetched _ _ => contributedIds project.items project.pullCommits
    | .notModified _ | .failed => (before.map (·.github)).getD []
  ⟨step, known.filter (fun id => ¬ LocalId step.history.commits
    (ingestedDocuments hash parsers (project.inputs step)) id)⟩

def views (steps : List HistoryStep) : List View := scan (project.view hash parsers) steps

/-- Every local relationship of a call. -/
def localEdges (step : HistoryStep) : List EvidenceEdge :=
  batchEdges hash parsers (project.inputs step)

/-- A commit that only the first call has locally is not a record of the second, neither from a
    document nor from GitHub. -/
def Compatible (v w : View) : Prop :=
  ∀ commit ∈ v.step.history.commits, ¬ CommitId w.step.history.commits commit.id →
    definition (governedDocuments hash parsers (project.inputs w.step)) commit.id = none ∧
      commit.id ∉ w.github

/-- The publication holds commits over documents over GitHub's records, and explicit
    relationships. -/
structure Shows (timestamp : Int → Option String) (v : View) (p : Publication) : Prop where
  records : ∀ id : String, p.evidence.records[id]? =
    ((v.step.history.commits.map (commitNode timestamp)).reverse.find? (·.id = id)).or
      ((definition (governedDocuments hash parsers (project.inputs v.step)) id).or
        (if id ∈ v.github then (project.contribution hash).records.find? (·.id = id) else none))
  github : ∀ id ∈ v.github,
    ¬ LocalId v.step.history.commits (ingestedDocuments hash parsers (project.inputs v.step)) id ∧
      ∃ record ∈ (project.contribution hash).records, record.id = id
  edges : ∀ e ∈ values p.evidence.edges,
    e ∈ project.localEdges hash parsers v.step ∨ e ∈ (project.contribution hash).edges

end Project

section Steps

variable {hash : String → String} {timestamp : Int → Option String} {parsers : Parsers}
  {project : Project} {step : HistoryStep}

/-- An identifier is local when a commit or a document defines it. -/
theorem localId_iff {inputs : LocalInputs} {id : String} :
    LocalId inputs.history.commits (ingestedDocuments hash parsers inputs) id ↔
      CommitId inputs.history.commits id ∨
        definition (governedDocuments hash parsers inputs) id ≠ none := by
  have hmem := @mem_records_local hash (fun _ => none) parsers inputs id
  rw [← hmem, ← ExtTreeMap.isSome_getElem?_iff_mem, getElem?_localRecords, Option.isSome_or,
    Bool.or_eq_true, Option.isSome_iff_ne_none, Option.isSome_iff_ne_none, Ne,
    find?_commitNode_eq_none, not_not]

/-- A merged contribution shows up under the identifiers that are not local. -/
theorem shows_of_merged {merged : Contribution} {known : List String} {p : Publication}
    (hrecords : p.evidence.records =
      (combinedEvidence hash timestamp parsers (project.inputs step) merged).records)
    (hedges : p.evidence.edges =
      (combinedEvidence hash timestamp parsers (project.inputs step) merged).edges)
    (hknown : ∀ id, merged.records.find? (·.id = id) =
      if id ∈ known then (project.contribution hash).records.find? (·.id = id) else none)
    (hcontribution : ∀ id ∈ known, ∃ record ∈ (project.contribution hash).records, record.id = id)
    (hmerged : ∀ e ∈ merged.edges, e ∈ (project.contribution hash).edges) :
    project.Shows hash parsers timestamp ⟨step, known.filter (fun id => ¬ LocalId
      step.history.commits (ingestedDocuments hash parsers (project.inputs step)) id)⟩ p where
  records id := by
    have hlocal := @getElem?_localRecords hash timestamp parsers (project.inputs step) id
    have hget : p.evidence.records[id]? =
        ((prepareLocalSync hash timestamp parsers (project.inputs step)).evidence.records[id]?).or
          (merged.records.find? (·.id = id)) := by
      rw [hrecords]
      exact getElem?_insertNewAll id
    rw [hget, hlocal, Option.or_assoc, hknown]
    by_cases hid : LocalId step.history.commits
        (ingestedDocuments hash parsers (project.inputs step)) id
    · -- a commit or document stands in for GitHub's record
      rcases localId_iff.mp hid with hcommit | hdocument
      · have hsome : (((project.inputs step).history.commits.map (commitNode timestamp)).reverse.find?
            (·.id = id)).isSome := by
          rw [Option.isSome_iff_ne_none, Ne, find?_commitNode_eq_none, not_not]
          exact hcommit
        exact (Option.or_of_isSome hsome).trans (Option.or_of_isSome hsome).symm
      · have hsome : (definition (governedDocuments hash parsers (project.inputs step)) id).isSome :=
          Option.isSome_iff_ne_none.mpr hdocument
        rw [Option.or_of_isSome hsome, Option.or_of_isSome hsome]
        rfl
    · -- nothing local has the identifier, so it counts as GitHub's when the contribution has it
      have hfilter : id ∈ known.filter (fun id => ¬ LocalId step.history.commits
          (ingestedDocuments hash parsers (project.inputs step)) id) ↔ id ∈ known := by
        rw [List.mem_filter]
        simp [hid]
      simp only [hfilter]
      rfl
  github id hid := by
    obtain ⟨hmem, hlocal⟩ := List.mem_filter.mp hid
    exact ⟨of_decide_eq_true hlocal, hcontribution id hmem⟩
  edges e he := by
    rw [hedges] at he
    rcases values_edges_combined he with hlocal | hother
    · refine Or.inl ?_
      -- a local edge is a relationship of a document or a reference of a commit
      rcases List.mem_append.mp (mem_proposedEdges_local hlocal) with hmem | hmem
      · exact List.mem_append_left _ (mem_relationships_of_mem_ingest hmem)
      · exact List.mem_append_right _ hmem
    · exact Or.inr (hmerged e hother)

/-- The records that a call retains are GitHub's in the call before. -/
theorem Project.Shows.find?_prior {v : View} {p : Publication}
    (h : project.Shows hash parsers timestamp v p) (sourceId id : String) :
    (priorOfSlice sourceId (p.slice hash)).records.find? (·.id = id) =
      if id ∈ v.github then (project.contribution hash).records.find? (·.id = id) else none := by
  have hform : WellFormed (project.contribution hash) := wellFormed_buildEvidence _ _ _ _
  have hfind : (priorOfSlice sourceId (p.slice hash)).records.find? (·.id = id) =
      p.evidence.records[id]?.filter isGithubNode :=
    p.evidence.records_keyed.find?_filter_values isGithubNode id
  rw [hfind, h.records]
  by_cases hid : id ∈ v.github
  · -- a record of GitHub, as nothing local has the identifier
    have hlocal := mt localId_iff.mpr (h.github id hid).1
    rw [not_or, not_not] at hlocal
    have hcommit : (v.step.history.commits.map (commitNode timestamp)).reverse.find? (·.id = id) =
        none := find?_commitNode_eq_none.mpr hlocal.1
    rw [hcommit, Option.none_or, hlocal.2, Option.none_or, if_pos hid]
    cases hrecord : (project.contribution hash).records.find? (·.id = id) with
    | none => rfl
    | some record =>
      have hkind : isGithubNode record = true :=
        decide_eq_true (hform.records_github record (List.mem_of_find?_eq_some hrecord))
      rw [Option.filter_some, if_pos hkind]
  · rw [if_neg hid, Option.or_none]
    cases hcommit : (v.step.history.commits.map (commitNode timestamp)).reverse.find?
        (·.id = id) with
    -- a local record is not of a GitHub kind, and the prior contribution leaves it out
    | some node =>
      have hkind := not_isGithubNode_of_find? hcommit
      rw [Option.some_or, Option.filter_some, if_neg (by simp [hkind])]
    | none =>
      rw [Option.none_or]
      cases hdefinition : definition (governedDocuments hash parsers (project.inputs v.step)) id with
      | none => rfl
      | some node =>
        have hkind := not_isGithubNode_of_definition hdefinition
        rw [Option.filter_some, if_neg (by simp [hkind])]

theorem Project.Shows.edges_prior {v : View} {p : Publication}
    (h : project.Shows hash parsers timestamp v p) (sourceId : String) {e : EvidenceEdge}
    (he : e ∈ (priorOfSlice sourceId (p.slice hash)).edges) :
    e ∈ (project.contribution hash).edges := by
  obtain ⟨hmem, hkind⟩ := List.mem_filter.mp he
  rcases h.edges e hmem with hlocal | hother
  · rw [not_isGithubEdge_of_mem_batchEdges hlocal] at hkind
    exact nomatch hkind
  · exact hother

/-- A call that retains a contribution. -/
theorem shows_retained {before : Option View} {last : Option Publication} {p : Publication}
    (h : Option.Rel (project.Shows hash parsers timestamp) before last) (sourceId : String)
    (hrecords : p.evidence.records = (combinedEvidence hash timestamp parsers (project.inputs step)
      ⟨(priorOf sourceId (last.map (·.slice hash))).records,
        (priorOf sourceId (last.map (·.slice hash))).edges⟩).records)
    (hedges : p.evidence.edges = (combinedEvidence hash timestamp parsers (project.inputs step)
      ⟨(priorOf sourceId (last.map (·.slice hash))).records,
        (priorOf sourceId (last.map (·.slice hash))).edges⟩).edges) :
    project.Shows hash parsers timestamp ⟨step, ((before.map (·.github)).getD []).filter
      (fun id => ¬ LocalId step.history.commits
        (ingestedDocuments hash parsers (project.inputs step)) id)⟩ p := by
  apply shows_of_merged hrecords hedges
  · intro id
    cases h with
    | none => rfl
    | some hshows => exact hshows.find?_prior sourceId id
  · intro id hid
    cases h with
    | none => exact absurd hid List.not_mem_nil
    | some hshows => exact (hshows.github id hid).2
  · intro e he
    cases h with
    | none => exact absurd he List.not_mem_nil
    | some hshows => exact hshows.edges_prior sourceId he

/-- **One call** publishes what its view says, when the call before it did. -/
theorem shows_view {before : Option View} {last : Option Publication}
    (h : Option.Rel (project.Shows hash parsers timestamp) before last) :
    project.Shows hash parsers timestamp (project.view hash parsers before step)
      ((project.call step).publication hash timestamp parsers (last.map (·.slice hash))) := by
  obtain ⟨history, now, answer⟩ := step
  cases answer with
  | fetched cursor rateLimit =>
    have hids : ∀ id, (∃ record ∈ (project.contribution hash).records, record.id = id) ↔
        id ∈ contributedIds project.items project.pullCommits := fun _ => mem_buildEvidence_ids
    refine shows_of_merged rfl rfl (fun id => ?_) (fun id hid => (hids id).mpr hid) (fun _ he => he)
    show (project.contribution hash).records.find? (·.id = id) = _
    by_cases hid : id ∈ contributedIds project.items project.pullCommits
    · rw [if_pos hid]
    · rw [if_neg hid, List.find?_eq_none]
      intro record hrecord heq
      exact hid ((hids id).mp ⟨record, hrecord, of_decide_eq_true heq⟩)
  | notModified rateLimit =>
    exact shows_retained h (sourceIdOf project.repository) rfl rfl
  | failed =>
    exact shows_retained h (sourceIdOf project.repository) rfl rfl

end Steps

/-! ### Two calls -/

section Pairs

variable {hash : String → String} {timestamp : Int → Option String} {parsers : Parsers}
  {project : Project} {v w : View} {p q : Publication}

/-- Where a commit is not local and nothing else has its identifier, no record has it. -/
theorem Project.Shows.getElem?_of_compatible (h : project.Shows hash parsers timestamp w q)
    (hcompatible : project.Compatible hash parsers v w) {id : String}
    (hcommit : CommitId v.step.history.commits id) (hother : ¬ CommitId w.step.history.commits id) :
    q.evidence.records[id]? = none := by
  obtain ⟨commit, hmem, rfl⟩ := hcommit
  obtain ⟨hdefinition, hgithub⟩ := hcompatible commit hmem hother
  rw [h.records, find?_commitNode_eq_none.mpr hother, hdefinition, if_neg hgithub]
  rfl

/-- The record of a local commit. -/
theorem Project.Shows.exists_commit (h : project.Shows hash parsers timestamp v p) {id : String}
    (hcommit : CommitId v.step.history.commits id) :
    ∃ commit ∈ v.step.history.commits, commit.id = id ∧
      p.evidence.records[id]? = some (commitNode timestamp commit) := by
  cases hfind : (v.step.history.commits.map (commitNode timestamp)).reverse.find? (·.id = id) with
  | none => exact absurd hcommit (find?_commitNode_eq_none.mp hfind)
  | some node =>
    have hmem := List.mem_reverse.mp (List.mem_of_find?_eq_some hfind)
    obtain ⟨commit, hcommit, rfl⟩ := List.mem_map.mp hmem
    have hid : (commitNode timestamp commit).id = id := by
      simpa using List.find?_some hfind
    refine ⟨commit, hcommit, hid, ?_⟩
    rw [h.records, hfind, Option.some_or]

/-- Compatible calls agree on their records. -/
theorem record_eq_of_compatible (hv : project.Shows hash parsers timestamp v p)
    (hw : project.Shows hash parsers timestamp w q)
    (hgit : ∀ c ∈ v.step.history.commits, ∀ c' ∈ w.step.history.commits, c.id = c'.id → c = c')
    (hvw : project.Compatible hash parsers v w) (hwv : project.Compatible hash parsers w v)
    {id : String} {a b : EvidenceNode} (ha : p.evidence.records[id]? = some a)
    (hb : q.evidence.records[id]? = some b) : a = b := by
  by_cases hcommit : CommitId v.step.history.commits id <;>
    by_cases hother : CommitId w.step.history.commits id
  · -- one commit, local to both
    obtain ⟨c, hc, hcid, hget⟩ := hv.exists_commit hcommit
    obtain ⟨c', hc', hcid', hget'⟩ := hw.exists_commit hother
    have heq : c = c' := hgit c hc c' hc' (hcid.trans hcid'.symm)
    rw [hget] at ha
    rw [hget', ← heq] at hb
    exact Option.some.inj (ha.symm.trans hb)
  · rw [hw.getElem?_of_compatible hvw hcommit hother] at hb
    exact nomatch hb
  · rw [hv.getElem?_of_compatible hwv hother hcommit] at ha
    exact nomatch ha
  · -- a document of both, or a record of GitHub in both
    rw [hv.records, find?_commitNode_eq_none.mpr hcommit, Option.none_or] at ha
    rw [hw.records, find?_commitNode_eq_none.mpr hother, Option.none_or] at hb
    have hdocuments : governedDocuments hash parsers (project.inputs w.step) =
        governedDocuments hash parsers (project.inputs v.step) := rfl
    rw [hdocuments] at hb
    cases hdefinition : definition (governedDocuments hash parsers (project.inputs v.step)) id with
    | some node =>
      rw [hdefinition, Option.some_or] at ha hb
      exact Option.some.inj (ha.symm.trans hb)
    | none =>
      rw [hdefinition, Option.none_or] at ha hb
      obtain ⟨-, ha⟩ := Option.ite_none_right_eq_some.mp ha
      obtain ⟨-, hb⟩ := Option.ite_none_right_eq_some.mp hb
      exact Option.some.inj (ha.symm.trans hb)

/-- Calls that agree on their records are compatible: a commit's own record is of Git's kind. -/
theorem compatible_of_record_eq (hv : project.Shows hash parsers timestamp v p)
    (hw : project.Shows hash parsers timestamp w q)
    (hagree : ∀ (id : String) a b, p.evidence.records[id]? = some a →
      q.evidence.records[id]? = some b → a = b) : project.Compatible hash parsers v w := by
  intro commit hcommit hother
  obtain ⟨c, -, -, hget⟩ := hv.exists_commit ⟨commit, hcommit, rfl⟩
  have hrecords := hw.records commit.id
  rw [find?_commitNode_eq_none.mpr hother, Option.none_or] at hrecords
  constructor
  · by_contra hne
    obtain ⟨node, hnode⟩ := Option.ne_none_iff_exists'.mp hne
    rw [hnode, Option.some_or] at hrecords
    -- a document under the commit's identifier would be of a document's kind, not of Git's
    obtain ⟨d, hd, rfl, -⟩ := definition_eq_some.mp hnode
    have heq := hagree _ _ _ hget hrecords
    rcases documentOrigin_sourceKind (governed_of_accepted hd).origin with hkind | hkind
    · rw [← heq] at hkind
      exact nomatch hkind
    · rw [← heq] at hkind
      exact nomatch hkind
  · intro hgithub
    have hform : WellFormed (project.contribution hash) := wellFormed_buildEvidence _ _ _ _
    obtain ⟨hlocal, record, hmem, hid⟩ := hw.github commit.id hgithub
    have hdefinition := mt (localId_iff.mpr ∘ Or.inr) hlocal
    rw [not_not] at hdefinition
    rw [hdefinition, Option.none_or, if_pos hgithub] at hrecords
    cases hfind : (project.contribution hash).records.find? (·.id = commit.id) with
    | none => exact List.find?_eq_none.mp hfind record hmem (decide_eq_true hid)
    | some node =>
      rw [hfind] at hrecords
      have hkind := hform.records_github node (List.mem_of_find?_eq_some hfind)
      rw [← hagree _ _ _ hget hrecords] at hkind
      exact nomatch hkind

/-- Two calls agree on their relationships. -/
theorem edge_eq_of_shows (hv : project.Shows hash parsers timestamp v p)
    (hw : project.Shows hash parsers timestamp w q)
    (hids : DerivedIds (project.localEdges hash parsers v.step ++
      project.localEdges hash parsers w.step ++ (project.contribution hash).edges))
    (hurls : ∀ e ∈ project.localEdges hash parsers v.step ++ project.localEdges hash parsers w.step,
      ∀ e' ∈ (project.contribution hash).edges, e.origin.locator ≠ e'.origin.locator)
    {e e' : EvidenceEdge} (he : e ∈ values p.evidence.edges) (he' : e' ∈ values q.evidence.edges)
    (hid : e.id = e'.id) : e = e' := by
  have hform : WellFormed (project.contribution hash) := wellFormed_buildEvidence _ _ _ _
  rcases hv.edges e he with hmem | hmem <;> rcases hw.edges e' he' with hmem' | hmem'
  · have hsame : SameRelation e e' := by
      apply hids e _ e' _ hid
      · exact List.mem_append_left _ (List.mem_append_left _ hmem)
      · exact List.mem_append_left _ (List.mem_append_right _ hmem')
    rcases documents_of_sameRelation hsame hmem hmem' with heq | hdocuments
    · exact heq
    · -- the documents are the same in both calls
      obtain ⟨d, hd, d', hd', -, -, hnode, -, heq⟩ := hdocuments
      exact heq (by rw [node_eq_of_accepted hd hd' hnode])
  · -- a local edge has no locator of GitHub's
    have hsame : SameRelation e e' := by
      apply hids e _ e' _ hid
      · exact List.mem_append_left _ (List.mem_append_left _ hmem)
      · exact List.mem_append_right _ hmem'
    exact absurd hsame.locator (hurls e (List.mem_append_left _ hmem) e' hmem')
  · have hsame : SameRelation e e' := by
      apply hids e _ e' _ hid
      · exact List.mem_append_right _ hmem
      · exact List.mem_append_left _ (List.mem_append_right _ hmem')
    exact absurd hsame.locator.symm (hurls e' (List.mem_append_right _ hmem') e hmem)
  · exact hform.edges_unique e hmem e' hmem' hid

/-- **Two calls** agree on their identifiers exactly when they are compatible. -/
theorem agreeOnIds_iff_compatible (hv : project.Shows hash parsers timestamp v p)
    (hw : project.Shows hash parsers timestamp w q)
    (hgit : ∀ c ∈ v.step.history.commits, ∀ c' ∈ w.step.history.commits, c.id = c'.id → c = c')
    (hids : DerivedIds (project.localEdges hash parsers v.step ++
      project.localEdges hash parsers w.step ++ (project.contribution hash).edges))
    (hurls : ∀ e ∈ project.localEdges hash parsers v.step ++ project.localEdges hash parsers w.step,
      ∀ e' ∈ (project.contribution hash).edges, e.origin.locator ≠ e'.origin.locator) :
    AgreeOnIds p q ↔ project.Compatible hash parsers v w ∧ project.Compatible hash parsers w v := by
  constructor
  · intro h
    have hagree : ∀ (id : String) a b, p.evidence.records[id]? = some a →
        q.evidence.records[id]? = some b → a = b := by
      intro id a b ha hb
      have hid : a.id = b.id :=
        (p.evidence.records_keyed id a ha).trans (q.evidence.records_keyed id b hb).symm
      exact h.records a (mem_values.mpr ⟨id, ha⟩) b (mem_values.mpr ⟨id, hb⟩) hid
    refine ⟨compatible_of_record_eq hv hw hagree, compatible_of_record_eq hw hv ?_⟩
    exact fun id a b ha hb => (hagree id b a hb ha).symm
  · rintro ⟨hvw, hwv⟩
    refine ⟨fun a ha b hb hid => ?_, fun e he e' he' => edge_eq_of_shows hv hw hids hurls he he'⟩
    rw [p.evidence.records_keyed.mem_values_iff] at ha
    rw [q.evidence.records_keyed.mem_values_iff, ← hid] at hb
    exact record_eq_of_compatible hv hw hgit hvw hwv ha hb

end Pairs

/-! ### Runs -/

section Runs

variable {hash : String → String} {timestamp : Int → Option String} {parsers : Parsers}
  {project : Project} {steps : List HistoryStep}

/-- The planned publications are what the views say. -/
theorem forall₂_views : List.Forall₂ (project.Shows hash parsers timestamp)
    (project.views hash parsers steps) (plan hash timestamp parsers (steps.map project.call)) := by
  unfold Project.views plan
  rw [scan_map]
  exact forall₂_scan (fun step _ before last h => shows_view h)

/-- The views are those of the steps. -/
theorem map_step_views : (project.views hash parsers steps).map (·.step) = steps := by
  unfold Project.views
  induction steps using List.reverseRecOn with
  | nil => rfl
  | append_singleton steps step ih =>
    rw [scan_concat, List.map_append, ih]
    rfl

/-- **A moving history.** Between calls that change nothing but the commits reachable from `HEAD`,
    with new snapshot identifiers throughout, every call publishes exactly when no commit that one
    call has locally is a record of another call that does not have it, and every call can read
    the snapshot before it. -/
theorem synced_iff_compatible
    (hnew : NewIds hash (plan hash timestamp parsers (steps.map project.call)))
    (hgit : ∀ c ∈ steps.flatMap (·.history.commits), ∀ c' ∈ steps.flatMap (·.history.commits),
      c.id = c'.id → c = c')
    (hids : DerivedIds (steps.flatMap (project.localEdges hash parsers) ++
      (project.contribution hash).edges))
    (hurls : ∀ e ∈ steps.flatMap (project.localEdges hash parsers),
      ∀ e' ∈ (project.contribution hash).edges, e.origin.locator ≠ e'.origin.locator) :
    (∃ publications db, Synced hash timestamp parsers (fun _ _ _ => True)
      (steps.map project.call) publications db) ↔
      (project.views hash parsers steps).Pairwise (fun v w =>
        project.Compatible hash parsers v w ∧ project.Compatible hash parsers w v) ∧
      PriorsLoad hash timestamp parsers (steps.map project.call) := by
  rw [exists_synced_iff hnew]
  apply and_congr_left
  intro _
  have hsteps : ∀ v ∈ project.views hash parsers steps, v.step ∈ steps := by
    intro v hv
    rw [← @map_step_views hash parsers project steps]
    exact List.mem_map_of_mem hv
  have hshows := forall₂_mem_left (@forall₂_views hash timestamp parsers project steps)
  -- the views describe the planned publications one by one, so pairs of views decide pairs of
  -- publications
  refine (pairwise_iff_of_forall₂ hshows (fun v p w q hv hw => ?_)).symm
  have hvstep := hsteps v hv.1
  have hwstep := hsteps w hw.1
  have hlocal : ∀ e ∈ project.localEdges hash parsers v.step ++
      project.localEdges hash parsers w.step, e ∈ steps.flatMap (project.localEdges hash parsers) := by
    intro e he
    rcases List.mem_append.mp he with he | he
    · exact List.mem_flatMap.mpr ⟨_, hvstep, he⟩
    · exact List.mem_flatMap.mpr ⟨_, hwstep, he⟩
  have hall : ∀ e ∈ project.localEdges hash parsers v.step ++
      project.localEdges hash parsers w.step ++ (project.contribution hash).edges,
      e ∈ steps.flatMap (project.localEdges hash parsers) ++ (project.contribution hash).edges := by
    intro e he
    exact List.mem_append.mpr ((List.mem_append.mp he).imp_left (hlocal e))
  refine (agreeOnIds_iff_compatible hv.2 hw.2 (fun c hc c' hc' => ?_) (fun e he e' he' => ?_)
    (fun e he => hurls e (hlocal e he))).symm
  · exact hgit c (List.mem_flatMap.mpr ⟨_, hvstep, hc⟩) c' (List.mem_flatMap.mpr ⟨_, hwstep, hc'⟩)
  · exact hids e (hall e he) e' (hall e' he')

end Runs

/-! ### A pull request with the first commit -/

def pullProject : Project := ⟨[], [], widget, [pullItem], pullCommits⟩

/-- GitHub answers with the pull request, while these commits are local. -/
def fetchWith (commits : List CommitEvidence) : HistoryStep :=
  ⟨⟨commits, true⟩, "now", .fetched "etag" budget⟩

/-- What calls of the project publish, with texts for their own hashes. -/
def pullPlan (steps : List HistoryStep) : List Publication :=
  samplePlan (steps.map pullProject.call)

set_option maxRecDepth 4000

/-- The commit stays local, while others are added. -/
theorem synced_growingHistory : ∃ publications db,
    Synced id (fun _ => none) noParsers (fun _ _ _ => True)
      ([fetchWith [firstCommit], fetchWith [secondCommit, firstCommit]].map pullProject.call)
      publications db := by
  have hnew : NewIds id (pullPlan [fetchWith [firstCommit],
      fetchWith [secondCommit, firstCommit]]) := by
    unfold NewIds
    decide
  have hlocal : [fetchWith [firstCommit], fetchWith [secondCommit, firstCommit]].flatMap
      (pullProject.localEdges id noParsers) = [] := by
    decide
  have hcontribution : (pullProject.contribution id).edges =
      [GitHub.edge id .includedInPr "a" "PR-7" (githubOrigin "pull/7")] := by
    decide
  have hload : PriorsLoad id (fun _ => none) noParsers
      ([fetchWith [firstCommit], fetchWith [secondCommit, firstCommit]].map pullProject.call) := by
    refine priorsLoad_pair.mpr (fun slice hslice => ?_)
    obtain rfl := Option.some.inj hslice
    exact ⟨by decide, by decide, by decide⟩
  refine (synced_iff_compatible hnew (by decide) ?_ ?_).mpr ⟨?_, hload⟩
  · rw [hlocal, hcontribution]
    exact derivedIds_of_forall_eq (fun _ => List.mem_singleton.mp)
  · rw [hlocal]
    exact fun e he => absurd he List.not_mem_nil
  · refine List.pairwise_pair.mpr ⟨?_, ?_⟩
    · unfold Project.Compatible
      decide
    · unfold Project.Compatible
      decide

/-- The commit is fetched into the local history after it was seen on GitHub: the second call is
    refused. -/
theorem not_synced_fetchedCommit :
    NewIds id (pullPlan [fetchWith [secondCommit], fetchWith [firstCommit, secondCommit]]) ∧
    ¬ ∃ publications db, Synced id (fun _ => none) noParsers (fun _ _ _ => True)
      ([fetchWith [secondCommit], fetchWith [firstCommit, secondCommit]].map pullProject.call)
      publications db := by
  have hnew : NewIds id (pullPlan [fetchWith [secondCommit],
      fetchWith [firstCommit, secondCommit]]) := by
    unfold NewIds
    decide
  refine ⟨hnew, fun hsynced => ?_⟩
  have hpairwise := ((exists_synced_iff hnew).mp hsynced).1
  have hdiffer : ¬ (pullPlan [fetchWith [secondCommit],
      fetchWith [firstCommit, secondCommit]]).Pairwise (fun p q =>
        ∀ a ∈ values p.evidence.records, ∀ b ∈ values q.evidence.records, a.id = b.id → a = b) := by
    decide
  exact hdiffer (hpairwise.imp AgreeOnIds.records)

end Rationale.Engine
