import Rationale.Engine.DecisionLog

namespace Rationale.Engine

open Std Rationale.Library Rationale.Docs Rationale.Git Rationale.Store

/-!
# Reading the last snapshot back

Before it publishes anything, `sync_with_github_client` reads the current snapshot within fixed
limits.  What a synchronization may publish is bounded elsewhere, and by other numbers.

* `SyncState`, `runCalls` — any sequence of calls, with the evidence of the current snapshot;
* `Holds` — the current snapshot has the rows of that evidence, in every state of every run;
* `ReadsBack` — evidence within the limits of the next read;
* `priorGithubContribution_blocked_iff` — the next read fails exactly beyond them.
-/

/-- A database, with the evidence that its current snapshot was published from. -/
structure SyncState where
  db : Database
  published : Option PreparedEvidence

def SyncState.initial : SyncState := ⟨Database.empty, none⟩

section Runs

variable (hash : String → String) (timestamp : Int → Option String) (parsers : Parsers)

/-- One call: a new snapshot replaces the current one, and otherwise nothing changes. -/
def SyncState.next (state : SyncState) (call : SyncCall) : SyncState :=
  match call.run hash timestamp parsers state.db with
  | .ok (report, db) =>
      if report.unchanged then ⟨db, state.published⟩
      else ⟨db, some (call.publication hash timestamp parsers (currentSlice state.db)).evidence⟩
  | .error _ => state

/-- Calls, one after the other. -/
def runCalls (calls : List SyncCall) : SyncState :=
  calls.foldl (SyncState.next hash timestamp parsers) SyncState.initial

end Runs

/-- Evidence within the limits with which the next synchronization reads. -/
structure ReadsBack (evidence : PreparedEvidence) : Prop where
  records : (values evidence.records).length ≤ priorLimits.maxNodes
  edges : (values evidence.edges).length ≤ priorLimits.maxEdges
  conflicts : (sortUniq compareConflicts evidence.conflicts).length ≤ priorLimits.maxConflicts

/-- The current snapshot has the rows of the evidence. -/
structure Holds (db : Database) (evidence : PreparedEvidence) : Prop where
  current : ∃ id sources, db.current = some id ∧
    db.snapshot id = evidenceRows evidence.sorted sources

/-! ### The size of a snapshot -/

section Sizes

variable {evidence : PreparedEvidence} {sources : List SourceState}

theorem size_recordIds_evidenceRows :
    (evidenceRows evidence sources).recordIds.size = (values evidence.records).length := by
  show ((values evidence.records).foldl (fun ids node => ids.insert node.id) (∅ : StringSet)).size = _
  rw [size_foldl_insert evidence.records_nodup (by simp)]
  simp

theorem size_edgeIds_evidenceRows :
    (evidenceRows evidence sources).edgeIds.size = (values evidence.edges).length := by
  show ((values evidence.edges).foldl (fun ids edge => ids.insert edge.id) (∅ : StringSet)).size = _
  rw [size_foldl_insert evidence.edges_nodup (by simp)]
  simp

theorem size_conflicts_evidenceRows :
    (evidenceRows evidence sources).conflicts.size =
      (sortUniq compareConflicts evidence.conflicts).length := by
  rw [← ExtTreeSet.length_toList]
  refine congrArg List.length (eq_of_pairwise_lt_of_mem_iff ExtTreeSet.ordered_toList
    (sortUniq_pairwise _) (fun conflict => ?_))
  rw [ExtTreeSet.mem_toList, mem_conflicts_evidenceRows, mem_sortUniq]

/-- Sorting the conflicts does not change how many there are. -/
theorem sortUniq_conflicts_sorted :
    sortUniq compareConflicts evidence.sorted.conflicts =
      sortUniq compareConflicts evidence.conflicts :=
  sortUniq_congr (fun _ => mem_sortBy)

end Sizes

/-! ### One read -/

section Reads

variable {db : Database} {evidence : PreparedEvidence} {limits : SliceLimits}

/-- A complete read fails at a limit only. -/
theorem loadCurrentSlice_error {failure : StoreError}
    (h : loadCurrentSlice db limits = .error failure) :
    ∃ kind actual limit, failure = .sliceLimitExceeded kind actual limit := by
  have henforce : ∀ {kind actual limit failure},
      enforceLimit kind actual limit = .error failure →
        failure = .sliceLimitExceeded kind actual limit := by
    intro kind actual limit failure h
    unfold enforceLimit at h
    split at h
    · exact (Except.error.inj h).symm
    · exact nomatch h
  unfold loadCurrentSlice at h
  split at h
  · exact nomatch h
  · dsimp only at h
    rcases bind_eq_error.mp h with h | ⟨_, -, h⟩
    · exact ⟨_, _, _, henforce h⟩
    rcases bind_eq_error.mp h with h | ⟨_, -, h⟩
    · exact ⟨_, _, _, henforce h⟩
    rcases bind_eq_error.mp h with h | ⟨_, -, h⟩
    · exact ⟨_, _, _, henforce h⟩
    · exact nomatch h

/-- The prior contribution is read, or a limit is exceeded. -/
theorem priorGithubContribution_blocked (sourceId : String) :
    (∃ kind actual limit, priorGithubContribution db sourceId =
      .error (.store (.sliceLimitExceeded kind actual limit))) ↔
      ¬ ∃ slice, loadCurrentSlice db priorLimits = .ok slice := by
  unfold priorGithubContribution
  cases hload : loadCurrentSlice db priorLimits with
  | ok slice =>
    refine iff_of_false ?_ (not_not.mpr ⟨slice, rfl⟩)
    rintro ⟨kind, actual, limit, h⟩
    exact nomatch h
  | error failure =>
    obtain ⟨kind, actual, limit, rfl⟩ := loadCurrentSlice_error hload
    refine iff_of_true ⟨kind, actual, limit, rfl⟩ ?_
    rintro ⟨slice, h⟩
    exact nomatch h

/-- **What is published reads back** exactly within the limits. -/
theorem Holds.loads_iff (h : Holds db evidence) :
    (∃ slice, loadCurrentSlice db priorLimits = .ok slice) ↔ ReadsBack evidence := by
  obtain ⟨id, sources, hid, hrows⟩ := h.current
  simp only [loadCurrentSlice_eq_ok hid]
  rw [hrows, size_recordIds_evidenceRows, size_edgeIds_evidenceRows, size_conflicts_evidenceRows,
    sortUniq_conflicts_sorted]
  constructor
  · rintro ⟨slice, hrecords, hedges, hconflicts, -⟩
    exact ⟨hrecords, hedges, hconflicts⟩
  · rintro ⟨hrecords, hedges, hconflicts⟩
    exact ⟨_, hrecords, hedges, hconflicts, rfl⟩

/-- Too many edges are found after the records. -/
theorem Holds.load_edges (h : Holds db evidence)
    (hrecords : (values evidence.records).length ≤ limits.maxNodes)
    (hedges : limits.maxEdges < (values evidence.edges).length) :
    loadCurrentSlice db limits =
      .error (.sliceLimitExceeded "edges" (values evidence.edges).length limits.maxEdges) := by
  obtain ⟨id, sources, hid, hrows⟩ := h.current
  unfold loadCurrentSlice currentSnapshotId
  rw [hid]
  dsimp only
  rw [hrows, size_recordIds_evidenceRows, size_edgeIds_evidenceRows]
  show (enforceLimit "nodes" (values evidence.records).length limits.maxNodes >>= fun _ =>
    enforceLimit "edges" (values evidence.edges).length limits.maxEdges >>= _) = _
  unfold enforceLimit
  rw [if_neg (by omega), if_pos hedges]
  rfl

end Reads

/-! ### Runs -/

section Invariant

variable {hash : String → String} {timestamp : Int → Option String} {parsers : Parsers}
  {db db' : Database} {call : SyncCall} {report : SyncReport}

/-- The current snapshot of a state is what was published, if anything was. -/
def SyncState.Tracked (state : SyncState) : Prop :=
  match state.published with
  | none => state.db.current = none
  | some evidence => Holds state.db evidence

/-- **One publication**: the same snapshot, or a new one with the rows of the evidence. -/
theorem publishEvidence_cases {evidence : PreparedEvidence} {sources : List SourceState}
    {complete : Bool} {rate : Option GitHubRateLimitView}
    (h : publishEvidence hash db evidence sources complete rate = .ok (report, db')) :
    report.unchanged = true ∧ db' = db ∨ report.unchanged = false ∧ Holds db' evidence := by
  unfold publishEvidence at h
  dsimp only at h
  split at h
  · obtain ⟨rfl, rfl⟩ := Prod.mk.inj (Except.ok.inj h)
    exact Or.inl ⟨rfl, rfl⟩
  · obtain ⟨published, hpublished, heq⟩ := map_eq_ok.mp h
    obtain ⟨rfl, rfl⟩ := Prod.mk.inj heq
    obtain ⟨-, -, rfl⟩ := publishCandidate_eq_ok.mp (mapError_eq_ok.mp hpublished)
    exact Or.inr ⟨rfl, ⟨_, _, rfl, snapshot_withEvidence⟩⟩

/-- A call that succeeds publishes its evidence, or keeps the snapshot. -/
theorem run_cases (h : call.run hash timestamp parsers db = .ok (report, db')) :
    report.unchanged = true ∧ db' = db ∨ report.unchanged = false ∧
      Holds db' (call.publication hash timestamp parsers (currentSlice db)).evidence := by
  cases call with
  | offline inputs => exact publishEvidence_cases h
  | online inputs repository outcome =>
    obtain ⟨prior, hprior, hpublish⟩ := bind_eq_ok.mp h
    obtain ⟨slice?, hload, rfl⟩ := map_eq_ok.mp hprior
    obtain rfl := eq_currentSlice_of_load (mapError_eq_ok.mp hload)
    exact publishEvidence_cases hpublish

/-- One call keeps track of the current snapshot. -/
theorem SyncState.Tracked.next {state : SyncState} (h : state.Tracked) (call : SyncCall) :
    (state.next hash timestamp parsers call).Tracked := by
  unfold SyncState.next
  cases hcall : call.run hash timestamp parsers state.db with
  | error failure => exact h
  | ok result =>
    obtain ⟨report, db'⟩ := result
    rcases run_cases hcall with ⟨hreport, rfl⟩ | ⟨hreport, hholds⟩
    · show SyncState.Tracked (if report.unchanged then _ else _)
      rw [if_pos hreport]
      exact h
    · show SyncState.Tracked (if report.unchanged then _ else _)
      rw [if_neg (by rw [hreport]; exact Bool.false_ne_true)]
      exact hholds

/-- **Every run** keeps track of the current snapshot. -/
theorem tracked_runCalls (calls : List SyncCall) :
    (runCalls hash timestamp parsers calls).Tracked := by
  have hrun : ∀ state : SyncState, state.Tracked →
      (calls.foldl (SyncState.next hash timestamp parsers) state).Tracked := by
    induction calls with
    | nil => exact fun _ h => h
    | cons call calls ih => exact fun state h => ih _ (h.next call)
  exact hrun SyncState.initial rfl

end Invariant

/-- **The next synchronization** is blocked exactly after evidence that does not read back.  In
    every state of every run, the read that every call with GitHub begins with exceeds a limit if
    and only if the current snapshot was published from evidence beyond the limits. -/
theorem priorGithubContribution_blocked_iff (hash : String → String)
    (timestamp : Int → Option String) (parsers : Parsers) (calls : List SyncCall)
    (sourceId : String) :
    (∃ kind actual limit,
      priorGithubContribution (runCalls hash timestamp parsers calls).db sourceId =
        .error (.store (.sliceLimitExceeded kind actual limit))) ↔
      ∃ evidence, (runCalls hash timestamp parsers calls).published = some evidence ∧
        ¬ ReadsBack evidence := by
  rw [priorGithubContribution_blocked]
  have htracked := @tracked_runCalls hash timestamp parsers calls
  unfold SyncState.Tracked at htracked
  cases hpublished : (runCalls hash timestamp parsers calls).published with
  | none =>
    -- a fresh database reads as nothing
    rw [hpublished] at htracked
    have hslice : currentSlice (runCalls hash timestamp parsers calls).db = none := by
      unfold currentSlice
      rw [htracked]
      rfl
    refine iff_of_false (not_not.mpr ⟨none, loadCurrentSlice_none hslice priorLimits⟩) ?_
    rintro ⟨evidence, h, -⟩
    exact nomatch h
  | some evidence =>
    rw [hpublished] at htracked
    rw [htracked.loads_iff]
    constructor
    · exact fun h => ⟨evidence, rfl, h⟩
    · rintro ⟨other, hother, h⟩
      rwa [Option.some.inj hother]

/-- A repository of 1,024 commits that each follow ninety-eight decisions synchronizes once; after
    that, no call with GitHub succeeds on it. -/
theorem blocked_decisionLog : ∃ report db,
    syncLocal id epoch templateParsers Database.empty (decisionLog 1024 98) = .ok (report, db) ∧
      ∀ inputs repository outcome,
        syncWithGithubClient id epoch templateParsers db inputs repository outcome =
          .error (.store (.sliceLimitExceeded "edges" 100352 100000)) := by
  obtain ⟨report, hpublish⟩ := @publishes_empty id (logPublication 1024 98)
  refine ⟨report, _, hpublish, fun inputs repository outcome => ?_⟩
  have hrecords := @length_records_decisionLog 1024 98 (by omega) (by omega)
  have hedges := @length_edges_decisionLog 1024 98 (by omega) (by omega)
  have hholds : Holds ((logPublication 1024 98).published id Database.empty)
      (logPublication 1024 98).evidence :=
    ⟨_, _, rfl, snapshot_withEvidence⟩
  have hload := @Holds.load_edges _ _ priorLimits hholds (by rw [hrecords]; decide)
    (by rw [hedges]; decide)
  rw [hedges] at hload
  unfold syncWithGithubClient priorGithubContribution
  rw [hload]
  rfl

end Rationale.Engine
