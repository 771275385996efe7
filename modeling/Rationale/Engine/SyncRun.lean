import Rationale.Docs.Definitions
import Rationale.Engine.Relationships
import Rationale.GitHub.Contribution

namespace Rationale.Engine

open Std Rationale.Library Rationale.Docs Rationale.Git Rationale.GitHub Rationale.Store

/-!
# Runs of synchronizations

Sequences of calls against one database, in which every call succeeds.

* `Synced` — the runs whose calls all meet a condition on the run and the database before them,
  with what each call publishes;
* `Synced.tracks` — after a run the current slice shows the last publication, as long as different
  evidence has different snapshot identifiers;
* `mem_records_combined`, `mem_edges_combined` — where the evidence of a combined sync comes from:
  GitHub's kind marks exactly what was merged.
-/

/-- A condition on one call, given the calls before it and the database that they left. -/
abbrev CallCondition := List SyncCall → Database → SyncCall → Prop

section Runs

variable (hash : String → String) (timestamp : Int → Option String) (parsers : Parsers)

/-- The runs from a fresh database in which every call succeeds and meets the condition. -/
inductive Synced (condition : CallCondition) :
    List SyncCall → List Publication → Database → Prop where
  | nil : Synced condition [] [] Database.empty
  | snoc {run : List SyncCall} {publications : List Publication} {db db' : Database}
      {call : SyncCall} {report : SyncReport} (h : Synced condition run publications db)
      (hcondition : condition run db call)
      (hcall : call.run hash timestamp parsers db = .ok (report, db')) :
      Synced condition (run ++ [call])
        (publications ++ [call.publication hash timestamp parsers (currentSlice db)]) db'

/-- Different evidence has different snapshot identifiers. -/
def CollisionFree (publications : List Publication) : Prop :=
  ∀ p ∈ publications, ∀ q ∈ publications, p.snapshotId hash = q.snapshotId hash → SameState p q

end Runs

section Steps

variable {hash : String → String} {timestamp : Int → Option String} {parsers : Parsers}
  {condition : CallCondition} {run : List SyncCall} {publications : List Publication}
  {db db' : Database} {call : SyncCall} {report : SyncReport}

/-- A call that succeeds publishes its publication. -/
theorem publishes_of_run (h : call.run hash timestamp parsers db = .ok (report, db')) :
    (call.publication hash timestamp parsers (currentSlice db)).Publishes hash db db' := by
  cases call with
  | offline inputs => exact ⟨report, h⟩
  | online inputs repository outcome =>
    obtain ⟨prior, hprior, hpublish⟩ := bind_eq_ok.mp h
    obtain ⟨slice?, hload, rfl⟩ := map_eq_ok.mp hprior
    obtain rfl := eq_currentSlice_of_load (mapError_eq_ok.mp hload)
    exact ⟨report, hpublish⟩

/-- A publication is a run of the store's operations. -/
theorem reachable_of_publishes {p : Publication} (hdb : Reachable db)
    (h : p.Publishes hash db db') : Reachable db' := by
  rcases publishes_iff.mp h with ⟨-, rfl⟩ | ⟨-, hnew, hconsistent, rfl⟩
  · exact hdb
  · have hsorted : Consistent db p.evidence.sorted := ⟨hconsistent.records, hconsistent.edges⟩
    exact reachable_publishCandidate hdb (publishCandidate_eq_ok.mpr ⟨hnew, hsorted, rfl⟩)

/-- Every run of calls is a run of the store. -/
theorem Synced.reachable (h : Synced hash timestamp parsers condition run publications db) :
    Reachable db := by
  induction h with
  | nil => exact Reachable.empty
  | snoc _ _ hcall ih => exact reachable_of_publishes ih (publishes_of_run hcall)

/-- An online call reads the slice before it, which has to be small enough. -/
def PriorLoads (before : Option GraphSlice) : SyncCall → Prop
  | .offline _ => True
  | .online _ _ _ => ∀ slice, before = some slice → Fits slice priorLimits

/-- **One call** goes through exactly when it can read the slice before it and then publish. -/
theorem exists_run_eq_ok_iff (hv : Valid db) :
    (∃ report db', call.run hash timestamp parsers db = .ok (report, db')) ↔
      PriorLoads (currentSlice db) call ∧ ∃ db',
        (call.publication hash timestamp parsers (currentSlice db)).Publishes hash db db' := by
  constructor
  · rintro ⟨report, db', h⟩
    refine ⟨?_, db', publishes_of_run h⟩
    cases call with
    | offline inputs => trivial
    | online inputs repository outcome =>
      intro slice hslice
      obtain ⟨prior, hprior, -⟩ := bind_eq_ok.mp h
      obtain ⟨slice?, hslice?, -⟩ := map_eq_ok.mp hprior
      have hread := mapError_eq_ok.mp hslice?
      rw [eq_currentSlice_of_load hread, hslice] at hread
      exact (hv.loadCurrentSlice_iff hslice).mp hread
  · rintro ⟨hprior, db', report, hpublish⟩
    refine ⟨report, db', ?_⟩
    cases call with
    | offline inputs => exact hpublish
    | online inputs repository outcome =>
      have hread : loadCurrentSlice db priorLimits = .ok (currentSlice db) := by
        cases hslice : currentSlice db with
        | none => exact loadCurrentSlice_none hslice priorLimits
        | some slice => exact (hv.loadCurrentSlice_iff hslice).mpr (hprior slice hslice)
      have hcontribution : priorGithubContribution db (sourceIdOf repository) =
          .ok (priorOf (sourceIdOf repository) (currentSlice db)) :=
        map_eq_ok.mpr ⟨_, mapError_eq_ok.mpr hread, rfl⟩
      exact bind_eq_ok.mpr ⟨_, hcontribution, hpublish⟩

/-- A run goes on with every call that succeeds. -/
theorem Synced.after (h : Synced hash timestamp parsers condition run publications db)
    (hcondition : condition run db call)
    (hok : (call.run hash timestamp parsers db).isOk = true) :
    Synced hash timestamp parsers condition (run ++ [call])
      (publications ++ [call.publication hash timestamp parsers (currentSlice db)])
      (call.after hash timestamp parsers db) := by
  unfold SyncCall.after
  cases hcall : call.run hash timestamp parsers db with
  | ok result => exact h.snoc hcondition hcall
  | error error =>
    rw [hcall] at hok
    exact nomatch hok

/-- A publication that succeeds is current afterwards. -/
theorem Tracks.isCurrent_of_publishes {p : Publication} (h : Tracks hash publications db)
    (hcollision : CollisionFree hash (publications ++ [p])) (hpublish : p.Publishes hash db db') :
    IsCurrent hash db' p := by
  rcases Engine.publishes_iff.mp hpublish with ⟨hid, rfl⟩ | ⟨-, -, hconsistent, rfl⟩
  · -- the last publication has the same identifier, so it has the same state
    rw [h.current] at hid
    obtain ⟨q, hq, heq⟩ := Option.map_eq_some_iff.mp hid
    have hmem : q ∈ publications ++ [p] := List.mem_append_left _ (List.mem_of_getLast? hq)
    exact (h.shows q hq).congr (hcollision q hmem p (by simp) heq)
  · exact isCurrent_published hconsistent

theorem CollisionFree.left {p : Publication} (h : CollisionFree hash (publications ++ [p])) :
    CollisionFree hash publications :=
  fun a ha b hb => h a (List.mem_append_left _ ha) b (List.mem_append_left _ hb)

/-- **After a run** the database remembers the publications, and the last one is current. -/
theorem Synced.tracks (h : Synced hash timestamp parsers condition run publications db)
    (hcollision : CollisionFree hash publications) : Tracks hash publications db := by
  induction h with
  | nil => exact tracks_empty
  | snoc _ _ hcall ih =>
    have htracks := ih hcollision.left
    have hpublish := publishes_of_run hcall
    exact htracks.snoc hpublish (htracks.isCurrent_of_publishes hcollision hpublish)

/-- A current publication is what the current slice shows. -/
theorem IsCurrent.currentSlice {p : Publication} (h : IsCurrent hash db p) :
    ∃ slice, Store.currentSlice db = some slice ∧ ShowsEvidence slice p := by
  obtain ⟨-, limits, slice, hload, hshows⟩ := h
  exact ⟨slice, (eq_currentSlice_of_load hload).symm, hshows⟩

end Steps

/-! ### Where evidence comes from -/

section Origins

variable {hash : String → String} {timestamp : Int → Option String} {parsers : Parsers}
  {inputs : LocalInputs} {contribution : Contribution}

/-- The documents of a call, ingested. -/
def ingestedDocuments (hash : String → String) (parsers : Parsers) (inputs : LocalInputs) :
    IngestResult :=
  ingest hash parsers IngestConfig.default inputs.documents

theorem not_github_of_documentOrigin {origin : Origin} (h : DocumentOrigin origin) :
    origin.sourceKind ≠ .github := by
  cases h with
  | markdown path => exact fun h => nomatch h
  | verification path => exact fun h => nomatch h

/-- Local records are not of GitHub's kind. -/
theorem not_isGithubNode_local {node : EvidenceNode}
    (h : node ∈ values (prepareLocalSync hash timestamp parsers inputs).evidence.records) :
    isGithubNode node = false := by
  refine decide_eq_false ?_
  have hget := (prepareLocalSync hash timestamp parsers inputs).evidence.records_keyed.mem_values_iff.mp h
  rcases mem_or_of_getElem?_insertAll hget with ⟨hmem, -⟩ | hdocument
  · obtain ⟨commit, -, rfl⟩ := List.mem_map.mp hmem
    exact fun h => nomatch h
  · rcases mem_or_of_getElem?_insertAll hdocument with ⟨hmem, -⟩ | hnone
    · exact not_github_of_documentOrigin (documentOrigin_record hmem)
    · simp at hnone

/-- Every relationship of a commit message has Git's kind. -/
theorem git_of_mem_commitReferenceEdges {commit : CommitEvidence} {edge : EvidenceEdge}
    (h : edge ∈ commitReferenceEdges hash commit) : edge.origin.sourceKind = .git := by
  obtain ⟨reference, -, hedge⟩ := List.mem_filterMap.mp h
  obtain ⟨kind, -, rfl⟩ := Option.map_eq_some_iff.mp hedge
  rfl

/-- A local relationship is one that was proposed. -/
theorem mem_proposedEdges_local {edge : EvidenceEdge}
    (h : edge ∈ values (prepareLocalSync hash timestamp parsers inputs).evidence.edges) :
    edge ∈ proposedEdges hash inputs.history.commits (ingestedDocuments hash parsers inputs) := by
  have hget := (prepareLocalSync hash timestamp parsers inputs).evidence.edges_keyed.mem_values_iff.mp h
  rcases mem_or_of_getElem?_insertAll hget with ⟨hmem, -⟩ | hnone
  · exact (List.mem_filter.mp hmem).1
  · simp at hnone

/-- Local relationships are not of GitHub's kind. -/
theorem not_isGithubEdge_local {edge : EvidenceEdge}
    (h : edge ∈ values (prepareLocalSync hash timestamp parsers inputs).evidence.edges) :
    isGithubEdge edge = false := by
  refine decide_eq_false ?_
  rcases List.mem_append.mp (mem_proposedEdges_local h) with hmem | hmem
  · exact not_github_of_documentOrigin (documentOrigin_edge hmem)
  · obtain ⟨commit, -, hedge⟩ := List.mem_flatMap.mp hmem
    rw [git_of_mem_commitReferenceEdges hedge]
    exact fun h => nomatch h

theorem mem_records_local {id : String} :
    id ∈ (prepareLocalSync hash timestamp parsers inputs).evidence.records ↔
      LocalId inputs.history.commits (ingestedDocuments hash parsers inputs) id :=
  mem_localRecords

/-- The identifiers of a combined sync. -/
theorem mem_records_combined {id : String} :
    id ∈ (combinedEvidence hash timestamp parsers inputs contribution).records ↔
      LocalId inputs.history.commits (ingestedDocuments hash parsers inputs) id ∨
        ∃ record ∈ contribution.records, record.id = id := by
  show id ∈ insertNewAll EvidenceNode.id
    (prepareLocalSync hash timestamp parsers inputs).evidence.records contribution.records ↔ _
  rw [mem_insertNewAll, mem_records_local]

/-- A record of a combined sync is local, or it was merged. -/
theorem values_records_combined {node : EvidenceNode}
    (h : node ∈ values (combinedEvidence hash timestamp parsers inputs contribution).records) :
    node ∈ values (prepareLocalSync hash timestamp parsers inputs).evidence.records ∨
      node ∈ contribution.records := by
  have hget :=
    (combinedEvidence hash timestamp parsers inputs contribution).records_keyed.mem_values_iff.mp h
  rcases mem_or_of_getElem?_insertNewAll hget with hlocal | ⟨-, hmem, -⟩
  · exact Or.inl (mem_values.mpr ⟨_, hlocal⟩)
  · exact Or.inr hmem

theorem values_edges_combined {edge : EvidenceEdge}
    (h : edge ∈ values (combinedEvidence hash timestamp parsers inputs contribution).edges) :
    edge ∈ values (prepareLocalSync hash timestamp parsers inputs).evidence.edges ∨
      edge ∈ contribution.edges := by
  have hget :=
    (combinedEvidence hash timestamp parsers inputs contribution).edges_keyed.mem_values_iff.mp h
  rcases mem_or_of_getElem?_insertNewAll hget with hlocal | ⟨-, hmem, -⟩
  · exact Or.inl (mem_values.mpr ⟨_, hlocal⟩)
  · exact Or.inr (List.mem_filter.mp hmem).1

/-- A merged edge with both ends present is in the evidence, when its identifier is its own. -/
theorem mem_edges_combined {edge : EvidenceEdge} (hmem : edge ∈ contribution.edges)
    (hends : edgeResolved (combinedEvidence hash timestamp parsers inputs contribution).records edge)
    (hlocal : ∀ other ∈ proposedEdges hash inputs.history.commits
      (ingestedDocuments hash parsers inputs), other.id = edge.id → other = edge)
    (hunique : ∀ other ∈ contribution.edges, other.id = edge.id → other = edge) :
    edge ∈ values (combinedEvidence hash timestamp parsers inputs contribution).edges := by
  let combined := combinedEvidence hash timestamp parsers inputs contribution
  have hkey : edge.id ∈ combined.edges :=
    mem_insertNewAll.mpr (Or.inr ⟨edge, List.mem_filter.mpr ⟨hmem, hends⟩, rfl⟩)
  obtain ⟨stored, hstored, hid⟩ := combined.edges_keyed.mem_iff.mp hkey
  rcases values_edges_combined hstored with hold | hnew
  · rw [← hlocal stored (mem_proposedEdges_local hold) hid]
    exact hstored
  · rw [← hunique stored hnew hid]
    exact hstored

end Origins

end Rationale.Engine
