import Rationale.Engine.Cursor
import Rationale.Engine.Why
import Rationale.Git.WorkingChanges
import Rationale.Store.PointReads

namespace Rationale.Engine

open Std Rationale.Library Rationale.Docs Rationale.Git Rationale.Store

/-!
# Inspection

`Engine::show` and `Engine::gaps_changed` of `crates/rationale-engine/src/lib.rs`.  Without a database
file there is nothing to show.

* `Presents`, `Presents.next` — the current snapshot is what was published last, call after call;
* `Presents.currentRecord_iff`, `Presents.fresh_iff` — its records and its stale sources;
* `recordOrigin_of_run` — the origin of a record never changes.
-/

def maxRecordIdBytes : Nat := 128

/-- Load one normalized record from the current snapshot. -/
def showRecord (database : Option Database) (recordId : String) :
    Except EngineError (Option EvidenceNode) := do
  validateInput recordId "record identifier" maxRecordIdBytes
  match database with
  | none => .error .noSnapshot
  | some db => return currentRecord db recordId

/-- One conservative gap for a changed working-copy path. -/
structure ChangedGap where
  path : String
  code : String
  deriving DecidableEq, Repr

def changedGap (change : WorkingChange) : ChangedGap where
  path := change.path
  code := match change.kind with
    | .added => "working_copy_unattributed"
    | .modified => "working_copy_modified"
    | .deleted => "working_copy_deleted"
    | .renamed => "working_copy_renamed"
    | .conflicted => "working_copy_conflicted"

/-- Report changed paths as explicit working-copy attribution gaps. -/
def gapsChanged (statuses : Except GitEvidenceError (List StatusEntry)) :
    Except EngineError (List ChangedGap) :=
  ((statuses >>= workingChanges).mapError (EngineError.git ·.message)).map (·.map changedGap)

/-! ### What is shown -/

section Show

variable {db db' : Database} {recordId : String} {node : EvidenceNode}

theorem showRecord_eq_ok : showRecord (some db) recordId = .ok (some node) ↔
    validateInput recordId "record identifier" maxRecordIdBytes = .ok () ∧
      currentRecord db recordId = some node := by
  unfold showRecord
  rw [bind_eq_ok]
  constructor
  · rintro ⟨_, hinput, h⟩
    exact ⟨hinput, Except.ok.inj h⟩
  · rintro ⟨hinput, h⟩
    exact ⟨(), hinput, congrArg Except.ok h⟩

theorem gapsChanged_eq_nil_iff {statuses : List StatusEntry} : gapsChanged (.ok statuses) = .ok [] ↔
    ∀ entry ∈ statuses, ∃ path, entry.path = some path ∧ isRationalePath path = true := by
  rw [← workingChanges_eq_nil_iff]
  show ((workingChanges statuses).mapError _).map _ = _ ↔ _
  cases workingChanges statuses with
  | error error => exact ⟨nofun, nofun⟩
  | ok changes =>
    show Except.ok (changes.map changedGap) = .ok [] ↔ _
    simp

end Show

/-! ### What was published last -/

/-- A database whose current snapshot was published from this publication, if any. -/
structure Presents (hash : String → String) (db : Database) (published : Option Publication) :
    Prop where
  reachable : Store.Reachable db
  slice : currentSlice db = published.map (Publication.slice hash)
  sources : ∀ p, published = some p → (p.sources.map (·.sourceId)).Nodup

section Published

variable {hash : String → String} {timestamp : Int → Option String} {parsers : Parsers}
  {db db' : Database} {published : Option Publication} {p : Publication} {call : SyncCall}
  {report : SyncReport} {recordId : String}

theorem presents_empty : Presents hash Database.empty none :=
  ⟨.empty, rfl, nofun⟩

/-- The sources of a call have different identifiers. -/
theorem nodup_publication (before : Option GraphSlice) :
    (((call.publication hash timestamp parsers before).sources).map (·.sourceId)).Nodup := by
  cases call with
  | offline inputs =>
    show ["local-git", "repository-documents"].Nodup
    decide
  | online inputs repository outcome => exact nodup_sources _ _

/-- The report of a publication, and its effect. -/
theorem publishEvidence_effect
    (h : publishEvidence hash db p.evidence p.sources p.historyComplete p.githubRateLimit =
      .ok (report, db')) :
    (report.staleSources = [] ↔ ∀ source ∈ p.sources, source.freshness = .fresh) ∧
      (report.unchanged = true ∧ db' = db ∨
        report.unchanged = false ∧ p.snapshotId hash ∉ db.snapshots ∧ Consistent db p.evidence ∧
          db' = p.published hash db) := by
  have hstale : ((sortSources p.sources).filter (·.freshness = .stale)).map (·.sourceId) = [] ↔
      ∀ source ∈ p.sources, source.freshness = .fresh := by
    rw [List.map_eq_nil_iff, List.filter_eq_nil_iff]
    refine forall_congr' fun source => ?_
    rw [sortSources, mem_sortBy]
    cases source.freshness <;> simp
  unfold publishEvidence at h
  dsimp only at h
  split at h
  · obtain ⟨rfl, rfl⟩ := Prod.mk.inj (Except.ok.inj h)
    exact ⟨hstale, Or.inl ⟨rfl, rfl⟩⟩
  · obtain ⟨database, hdatabase, heq⟩ := map_eq_ok.mp h
    obtain ⟨rfl, rfl⟩ := Prod.mk.inj heq
    obtain ⟨hid, hconsistent, rfl⟩ := publishCandidate_eq_ok.mp (mapError_eq_ok.mp hdatabase)
    exact ⟨hstale, Or.inr ⟨rfl, hid, ⟨hconsistent.records, hconsistent.edges⟩, rfl⟩⟩

/-- The same for a call. -/
theorem run_effect (h : call.run hash timestamp parsers db = .ok (report, db')) :
    (report.staleSources = [] ↔
      ∀ source ∈ (call.publication hash timestamp parsers (currentSlice db)).sources,
        source.freshness = .fresh) ∧
      (report.unchanged = true ∧ db' = db ∨ report.unchanged = false ∧
        (call.publication hash timestamp parsers (currentSlice db)).snapshotId hash ∉ db.snapshots ∧
        Consistent db (call.publication hash timestamp parsers (currentSlice db)).evidence ∧
        db' = (call.publication hash timestamp parsers (currentSlice db)).published hash db) := by
  cases call with
  | offline inputs =>
    exact @publishEvidence_effect hash db db' (localPublication hash timestamp parsers inputs) report h
  | online inputs repository outcome =>
    obtain ⟨prior, hprior, hpublish⟩ := bind_eq_ok.mp h
    obtain ⟨slice?, hload, rfl⟩ := map_eq_ok.mp hprior
    obtain rfl := eq_currentSlice_of_load (mapError_eq_ok.mp hload)
    exact @publishEvidence_effect hash db db' (githubPublication hash timestamp parsers _ inputs
      repository outcome) report hpublish

/-- **One call.** -/
theorem Presents.next (hdb : Presents hash db published)
    (h : call.run hash timestamp parsers db = .ok (report, db')) :
    Presents hash db' (if report.unchanged then published
      else some (call.publication hash timestamp parsers (currentSlice db))) := by
  have hreachable := reachable_of_publishes hdb.reachable (publishes_of_run h)
  rcases (run_effect h).2 with ⟨hunchanged, rfl⟩ | ⟨hchanged, -, hconsistent, rfl⟩
  · rw [if_pos hunchanged]
    exact hdb
  · rw [if_neg (by rw [hchanged]; exact Bool.false_ne_true)]
    refine ⟨hreachable, currentSlice_published hconsistent, fun p hp => ?_⟩
    rw [← Option.some.inj hp]
    exact nodup_publication _

/-- **One record** is shown exactly when it was published last. -/
theorem Presents.currentRecord_iff (hdb : Presents hash db published) {node : EvidenceNode} :
    currentRecord db recordId = some node ↔
      ∃ p, published = some p ∧ p.evidence.records[recordId]? = some node := by
  rw [currentRecord_eq_some_iff hdb.reachable.valid, hdb.slice]
  have hkeyed : ∀ p : Publication, KeyedBy EvidenceNode.id p.evidence.records :=
    fun p => p.evidence.records_keyed
  constructor
  · rintro ⟨full, hfull, hnode, rfl⟩
    obtain ⟨p, rfl, rfl⟩ := Option.map_eq_some_iff.mp hfull
    exact ⟨p, rfl, (hkeyed p).mem_values_iff.mp hnode⟩
  · rintro ⟨p, rfl, hnode⟩
    obtain rfl : node.id = recordId := hkeyed p recordId node hnode
    exact ⟨_, rfl, (hkeyed p).mem_values_iff.mpr hnode, rfl⟩

/-- A stale source of the current snapshot was stale when it was published. -/
theorem Presents.fresh_iff (hdb : Presents hash db published) {full : GraphSlice}
    (hfull : currentSlice db = some full) : (∀ source ∈ full.sources, source.freshness = .fresh) ↔
      ∃ p, published = some p ∧ ∀ source ∈ p.sources, source.freshness = .fresh := by
  rw [hdb.slice] at hfull
  obtain ⟨p, rfl, rfl⟩ := Option.map_eq_some_iff.mp hfull
  have hnodup := hdb.sources p rfl
  have hmem : ∀ source, source ∈ (p.slice hash).sources ↔ source ∈ p.sources := by
    intro source
    have hunique : ∀ a ∈ sortSources p.sources, ∀ b ∈ sortSources p.sources,
        a.sourceId = b.sourceId → a = b := by
      intro a ha b hb
      exact List.inj_on_of_nodup_map hnodup (mem_sortBy.mp ha) (mem_sortBy.mp hb)
    show source ∈ values (indexBy SourceState.sourceId (sortSources p.sources) : StringMap SourceState)
      ↔ _
    rw [mem_values_indexBy hunique, sortSources, mem_sortBy]
  simp only [hmem, Option.some.injEq, exists_eq_left']

/-- Origins stay as they are. -/
theorem recordOrigin_of_run (h : call.run hash timestamp parsers db = .ok (report, db'))
    {origin : Origin} (horigin : recordOrigin db recordId = some origin) :
    recordOrigin db' recordId = some origin := by
  rcases (run_effect h).2 with ⟨-, rfl⟩ | ⟨-, -, -, rfl⟩
  · exact horigin
  · obtain ⟨node, hnode, rfl⟩ := Option.map_eq_some_iff.mp horigin
    refine Option.map_eq_some_iff.mpr ⟨node, ?_, rfl⟩
    show (insertNewAll EvidenceNode.id db.records _)[recordId]? = some node
    rw [getElem?_insertNewAll, hnode]
    rfl

end Published

end Rationale.Engine
