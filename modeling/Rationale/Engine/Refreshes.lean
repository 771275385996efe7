import Rationale.Engine.Inspect
import Rationale.Engine.Repository
import Rationale.Library.Ranking

namespace Rationale.Engine

open Std Rationale.Library Rationale.Docs Rationale.Git Rationale.Store
open Rationale.GitHub (GitHubRepository Contribution buildEvidence wellFormed_buildEvidence)

/-!
# Repeated refreshes

What `sync_with_github_client` publishes when nothing has changed since the last call: the local
inputs are the same, and GitHub has nothing new or cannot be reached.

* `combinedEvidence_retained` — the contribution of a snapshot, merged again, gives that snapshot;
* `Settles`, `sameState_settles` — the calls that publish the state of the call before them;
* `refresh_unchanged` — such a call leaves the snapshot as it is;
* `refresh_after_failure` — after a call that could not reach GitHub, the next one that can fails.
-/

section Retained

variable {hash : String → String} {timestamp : Int → Option String} {parsers : Parsers}
  {inputs : LocalInputs} {contribution : Contribution}

/-- Evidence of GitHub only. -/
structure OfGithub (contribution : Contribution) : Prop where
  records : ∀ record ∈ contribution.records, isGithubNode record = true
  edges : ∀ edge ∈ contribution.edges, isGithubEdge edge = true

/-- The contribution that a later call finds in published evidence. -/
def retainedContribution (evidence : PreparedEvidence) : Contribution :=
  ⟨(values evidence.records).filter isGithubNode, (values evidence.edges).filter isGithubEdge⟩

/-- **What was merged is found again**, and merges to the same evidence. -/
theorem combinedEvidence_retained (h : OfGithub contribution) :
    combinedEvidence hash timestamp parsers inputs (retainedContribution
      (combinedEvidence hash timestamp parsers inputs contribution)) =
      combinedEvidence hash timestamp parsers inputs contribution := by
  let evidence := (prepareLocalSync hash timestamp parsers inputs).evidence
  let combined := combinedEvidence hash timestamp parsers inputs contribution
  have hrecords : insertNewAll EvidenceNode.id evidence.records
      ((values combined.records).filter isGithubNode) = combined.records :=
    evidence.records_keyed.insertNewAll_filter_values h.records
  -- every edge of the evidence has its ends, so the filter keeps those of GitHub
  have hresolved : ((values combined.edges).filter isGithubEdge).filter
      (edgeResolved combined.records) = (values combined.edges).filter isGithubEdge := by
    rw [List.filter_eq_self]
    intro edge hedge
    exact edgeResolved_iff.mpr (combined.edges_closed edge (List.mem_of_mem_filter hedge))
  have hedges : insertNewAll EvidenceEdge.id evidence.edges
      (((values combined.edges).filter isGithubEdge).filter (edgeResolved
        (insertNewAll EvidenceNode.id evidence.records
          ((values combined.records).filter isGithubNode)))) = combined.edges := by
    rw [hrecords, hresolved]
    exact evidence.edges_keyed.insertNewAll_filter_values
      (fun edge hedge => h.edges edge (List.mem_of_mem_filter hedge))
  unfold combinedEvidence mergeGithubEvidence retainedContribution
  simp only [PreparedEvidence.mk.injEq]
  exact ⟨hrecords, hedges, trivial, trivial⟩

/-- Whatever the outcome, what is merged is evidence of GitHub. -/
theorem ofGithub_merged (repository : GitHubRepository) (outcome : GitHubSyncOutcome)
    (sourceId : String) (before : Option GraphSlice) :
    OfGithub (mergedContribution hash (priorOf sourceId before) repository outcome) := by
  have hprior : OfGithub ⟨(priorOf sourceId before).records, (priorOf sourceId before).edges⟩ := by
    cases before with
    | none => exact ⟨fun _ h => absurd h List.not_mem_nil, fun _ h => absurd h List.not_mem_nil⟩
    | some slice =>
      exact ⟨fun _ h => (List.mem_filter.mp h).2, fun _ h => (List.mem_filter.mp h).2⟩
  cases outcome with
  | updated items commits cursor rateLimit =>
    have hform := wellFormed_buildEvidence hash repository items commits
    exact ⟨fun record h => decide_eq_true (hform.records_github record h),
      fun edge h => decide_eq_true (hform.edges_github edge h)⟩
  | notModified rateLimit => exact hprior
  | failed => exact hprior

end Retained

/-! ### Publications of one state -/

section States

variable {hash : String → String} {timestamp : Int → Option String} {parsers : Parsers}
  {prior : PriorGitHubContribution} {before : Option GraphSlice} {inputs : LocalInputs}
  {repository : GitHubRepository} {outcome outcome' : GitHubSyncOutcome} {now : String}

/-- The same inputs, at another time. -/
def LocalInputs.at (inputs : LocalInputs) (now : String) : LocalInputs := { inputs with now }

/-- What a call finds of the snapshot that the call before it published. -/
theorem priorOf_slice : priorOf (sourceIdOf repository) (some
    ((githubPublication hash timestamp parsers prior inputs repository outcome).slice hash)) =
      ⟨(retainedContribution (combinedEvidence hash timestamp parsers inputs
          (mergedContribution hash prior repository outcome))).records,
        (retainedContribution (combinedEvidence hash timestamp parsers inputs
          (mergedContribution hash prior repository outcome))).edges,
        some (githubSource prior repository inputs.now outcome)⟩ := by
  let p := githubPublication hash timestamp parsers prior inputs repository outcome
  have hnodup : ((sortSources p.sources).map (·.sourceId)).Nodup :=
    ((sortBy_perm p.sources).map _).nodup_iff.mpr (nodup_sources _ _)
  have hmem : githubSource prior repository inputs.now outcome ∈ sortSources p.sources :=
    mem_sortBy.mpr (List.mem_append_right _ (List.mem_singleton_self _))
  have hid : (githubSource prior repository inputs.now outcome).sourceId = sourceIdOf repository := by
    cases outcome <;> rfl
  have hsource : (values (indexBy SourceState.sourceId (sortSources p.sources) :
      StringMap SourceState)).find? (·.sourceId = sourceIdOf repository) =
        some (githubSource prior repository inputs.now outcome) := by
    rw [keyedBy_indexBy.find?_values]
    exact (getElem?_indexBy_of_nodup hnodup).mpr ⟨hmem, hid⟩
  exact congrArg (PriorGitHubContribution.mk _ _) hsource

/-- A call whose publication has the state of the one that it retains: GitHub answered both, or
    neither, and there was something to retain already. -/
inductive Settles (prior : PriorGitHubContribution) :
    GitHubSyncOutcome → GitHubSyncOutcome → Prop where
  | answered {outcome : GitHubSyncOutcome} (rateLimit : GitHubRateLimitView)
      (answered : outcome ≠ .failed) : Settles prior outcome (.notModified rateLimit)
  | failed (source : prior.source.isSome) : Settles prior .failed .failed

/-- The sources apart from the times, sorted. -/
theorem timelessSources_eq (p : Publication) :
    p.timelessSources = sortSources (p.sources.map SourceState.timeless) :=
  @map_sortBy _ _ (compareOn SourceState.sourceId) SourceState.timeless p.sources

/-- A call finds what an earlier one published: its evidence merges to the same, and the source has
    the same cursor. -/
structure Retains (hash : String → String) (timestamp : Int → Option String) (parsers : Parsers)
    (prior : PriorGitHubContribution) (inputs : LocalInputs) (repository : GitHubRepository)
    (outcome : GitHubSyncOutcome) (prior' : PriorGitHubContribution) : Prop where
  source : ∃ source, prior'.source = some source ∧
    source.cursor = (githubSource prior repository inputs.now outcome).cursor
  evidence : combinedEvidence hash timestamp parsers inputs ⟨prior'.records, prior'.edges⟩ =
    combinedEvidence hash timestamp parsers inputs
      (mergedContribution hash prior repository outcome)

/-- The next call finds it. -/
theorem retains_slice : Retains hash timestamp parsers (priorOf (sourceIdOf repository) before) inputs
    repository outcome (priorOf (sourceIdOf repository) (some
      ((githubPublication hash timestamp parsers (priorOf (sourceIdOf repository) before) inputs
        repository outcome).slice hash))) := by
  rw [priorOf_slice]
  exact ⟨⟨_, rfl, rfl⟩, combinedEvidence_retained (ofGithub_merged repository outcome _ before)⟩

/-- And it is still found after a call that failed. -/
theorem Retains.failed {slice : GraphSlice} (h : Retains hash timestamp parsers prior inputs repository
      outcome (priorOf (sourceIdOf repository) (some slice))) :
    Retains hash timestamp parsers prior inputs repository outcome
      (priorOf (sourceIdOf repository) (some ((githubPublication hash timestamp parsers
        (priorOf (sourceIdOf repository) (some slice)) (inputs.at now) repository
          .failed).slice hash))) := by
  obtain ⟨⟨source, hsource, hcursor⟩, hevidence⟩ := h
  obtain ⟨⟨after, hafter, hkept⟩, hmerged⟩ := @retains_slice hash timestamp parsers (some slice)
    (inputs.at now) repository .failed
  refine ⟨⟨after, hafter, hkept.trans ?_⟩, hmerged.trans hevidence⟩
  show (priorOf (sourceIdOf repository) (some slice)).source.bind (·.cursor) = _
  rw [hsource]
  exact hcursor

variable {prior' : PriorGitHubContribution}
  (hretains : Retains hash timestamp parsers prior inputs repository outcome prior')

include hretains

/-- The state of GitHub after a call that settles. -/
theorem timeless_githubSource (h : Settles prior outcome outcome') :
    SourceState.timeless (githubSource prior' repository now outcome') =
      SourceState.timeless (githubSource prior repository inputs.now outcome) := by
  obtain ⟨source, hsource, hcursor⟩ := hretains.source
  cases h with
  | answered rateLimit hanswered =>
    have hkept : (prior'.source.bind (·.cursor)).getD defaultCursor =
        (source.cursor).getD defaultCursor := by rw [hsource]; rfl
    show SourceState.mk _ _ _ _ (some _) = _
    rw [hkept, hcursor]
    cases outcome with
    | updated items commits cursor rateLimit => rfl
    | notModified rateLimit => rfl
    | failed => exact absurd rfl hanswered
  | failed =>
    have hkept : prior'.source.bind (·.cursor) = source.cursor := by rw [hsource]; rfl
    show SourceState.mk _ _ _ _ (prior'.source.bind (·.cursor)) = _
    rw [hkept, hcursor]
    rfl

/-- And its diagnostics. -/
theorem githubDiagnostics_settles (h : Settles prior outcome outcome') :
    githubDiagnostics prior' repository outcome' = githubDiagnostics prior repository outcome := by
  cases h with
  | answered rateLimit hanswered =>
    cases outcome with
    | updated items commits cursor rateLimit => rfl
    | notModified rateLimit => rfl
    | failed => exact absurd rfl hanswered
  | failed hsource =>
    -- both times there is something to retain
    obtain ⟨source, hsource', -⟩ := hretains.source
    unfold githubDiagnostics
    rw [hsource', hsource]
    rfl

/-- **Nothing new.** What a call that settles publishes is the state that is there. -/
theorem sameState_settles (h : Settles prior outcome outcome') : SameState
    (githubPublication hash timestamp parsers prior' (inputs.at now) repository outcome')
    (githubPublication hash timestamp parsers prior inputs repository outcome) := by
  let localSync := prepareLocalSync hash timestamp parsers inputs
  let q := githubPublication hash timestamp parsers prior' (inputs.at now) repository outcome'
  let p := githubPublication hash timestamp parsers prior inputs repository outcome
  have hmerged : mergedContribution hash prior' repository outcome' =
      ⟨prior'.records, prior'.edges⟩ := by
    cases h <;> rfl
  have hevidence : q.evidence = p.evidence := by
    show (combinedEvidence hash timestamp parsers inputs
      (mergedContribution hash prior' repository outcome')).diagnose
        (githubDiagnostics prior' repository outcome') = p.evidence
    rw [hmerged, hretains.evidence, githubDiagnostics_settles hretains h]
    rfl
  have hsources : q.timelessSources = p.timelessSources := by
    rw [timelessSources_eq, timelessSources_eq]
    refine congrArg sortSources ?_
    show (localSources localSync now ++
      [githubSource prior' repository now outcome']).map SourceState.timeless =
        (localSources localSync inputs.now ++
          [githubSource prior repository inputs.now outcome]).map SourceState.timeless
    rw [List.map_append, List.map_append, List.map_singleton, List.map_singleton,
      timeless_githubSource hretains h]
    rfl
  exact ⟨congrArg (values ·.records) hevidence, congrArg (values ·.edges) hevidence,
    congrArg (·.sorted.conflicts) hevidence, congrArg (·.sorted.diagnostics) hevidence, hsources⟩

end States

/-! ### Calls -/

section Calls

variable {hash : String → String} {timestamp : Int → Option String} {parsers : Parsers}
  {db db' db'' : Database} {inputs : LocalInputs} {repository : GitHubRepository}
  {outcome outcome' : GitHubSyncOutcome} {now : String} {report report' : SyncReport}
  {call : SyncCall} {p : Publication}

/-- What is current is reused. -/
theorem publishEvidence_current (h : currentSnapshotId db = some (p.snapshotId hash)) :
    ∃ report, publishEvidence hash db p.evidence p.sources p.historyComplete p.githubRateLimit =
        .ok (report, db) ∧ report.unchanged = true ∧ report.snapshotId = p.snapshotId hash := by
  have hif : currentSnapshotId db =
      some (evidenceSnapshotId hash p.evidence.sorted (sortSources p.sources)) := h
  unfold publishEvidence
  dsimp only
  rw [if_pos hif]
  exact ⟨_, rfl, rfl, rfl⟩

/-- What was current before is not published again. -/
theorem publishEvidence_stored (h : currentSnapshotId db ≠ some (p.snapshotId hash))
    (hstored : p.snapshotId hash ∈ db.snapshots) :
    publishEvidence hash db p.evidence p.sources p.historyComplete p.githubRateLimit =
      .error (.store (.database "UNIQUE constraint failed: snapshots.id")) := by
  have hbegin : beginCandidate db (p.snapshotId hash) =
      .error (.database "UNIQUE constraint failed: snapshots.id") := if_pos hstored
  have hcandidate : publishCandidate db (p.snapshotId hash) p.evidence.sorted (sortSources p.sources) =
      .error (.database "UNIQUE constraint failed: snapshots.id") := by
    unfold publishCandidate
    rw [hbegin]
    rfl
  have hif : ¬ currentSnapshotId db =
      some (evidenceSnapshotId hash p.evidence.sorted (sortSources p.sources)) := h
  unfold publishEvidence
  dsimp only
  rw [if_neg hif]
  show ((publishCandidate db (p.snapshotId hash) p.evidence.sorted (sortSources p.sources)).mapError
    EngineError.store).map _ = _
  rw [hcandidate]
  rfl

/-- A call that can read the slice before it publishes its publication. -/
theorem run_eq_publishEvidence (hv : Valid db) (hload : PriorLoads (currentSlice db) call) :
    call.run hash timestamp parsers db =
      publishEvidence hash db (call.publication hash timestamp parsers (currentSlice db)).evidence
        (call.publication hash timestamp parsers (currentSlice db)).sources
        (call.publication hash timestamp parsers (currentSlice db)).historyComplete
        (call.publication hash timestamp parsers (currentSlice db)).githubRateLimit := by
  cases call with
  | offline inputs => rfl
  | online inputs repository outcome =>
    have hread : loadCurrentSlice db priorLimits = .ok (currentSlice db) := by
      cases hslice : currentSlice db with
      | none => exact loadCurrentSlice_none hslice priorLimits
      | some slice => exact (hv.loadCurrentSlice_iff hslice).mpr (hload slice hslice)
    show (priorGithubContribution db (sourceIdOf repository) >>= _) = _
    unfold priorGithubContribution
    rw [hread]
    rfl

/-- What a new publication leaves: it is current, and the snapshots before it are still there. -/
theorem run_new (h : call.run hash timestamp parsers db = .ok (report, db'))
    (hnew : report.unchanged = false)
    (hp : p = call.publication hash timestamp parsers (currentSlice db)) :
    p.snapshotId hash ∉ db.snapshots ∧ currentSnapshotId db' = some (p.snapshotId hash) ∧
      currentSlice db' = some (p.slice hash) ∧
      ∀ id, id ∈ db'.snapshots ↔ id = p.snapshotId hash ∨ id ∈ db.snapshots := by
  subst hp
  rcases (run_effect h).2 with ⟨hunchanged, -⟩ | ⟨-, hid, hconsistent, rfl⟩
  · exact absurd (hunchanged.symm.trans hnew) (by decide)
  · refine ⟨hid, rfl, currentSlice_published hconsistent, fun id => ?_⟩
    show id ∈ db.snapshots.insert _ _ ↔ _
    rw [ExtTreeMap.mem_insert, LawfulEqCmp.compare_eq_iff_eq]
    exact or_congr_left eq_comm

/-- A call of the state that is there leaves everything as it is. -/
theorem run_current (hv : Valid db) (hload : PriorLoads (currentSlice db) call)
    (hcurrent : currentSnapshotId db = some (p.snapshotId hash))
    (hsame : SameState (call.publication hash timestamp parsers (currentSlice db)) p) :
    ∃ report, call.run hash timestamp parsers db = .ok (report, db) ∧ report.unchanged = true ∧
      report.snapshotId = p.snapshotId hash := by
  rw [run_eq_publishEvidence hv hload, ← hsame.snapshotId_eq]
  exact publishEvidence_current (hcurrent.trans (congrArg some hsame.snapshotId_eq.symm))

/-- A call of a state that was left is refused. -/
theorem run_refused (hv : Valid db) (hload : PriorLoads (currentSlice db) call)
    (hother : currentSnapshotId db ≠ some (p.snapshotId hash))
    (hstored : p.snapshotId hash ∈ db.snapshots)
    (hsame : SameState (call.publication hash timestamp parsers (currentSlice db)) p) :
    call.run hash timestamp parsers db =
      .error (.store (.database "UNIQUE constraint failed: snapshots.id")) := by
  rw [run_eq_publishEvidence hv hload]
  rw [← hsame.snapshotId_eq] at hother hstored
  exact publishEvidence_stored hother hstored

/-- A call whose publication is not current publishes anew, if it succeeds. -/
theorem unchanged_eq_false (h : call.run hash timestamp parsers db = .ok (report, db'))
    (hother : currentSnapshotId db ≠
      some ((call.publication hash timestamp parsers (currentSlice db)).snapshotId hash)) :
    report.unchanged = false := by
  rcases (run_effect h).2 with ⟨-, rfl⟩ | ⟨hunchanged, -⟩
  · rcases publishes_iff.mp (publishes_of_run h) with ⟨hcurrent, -⟩ | ⟨-, -, -, heq⟩
    · exact absurd hcurrent hother
    · exact absurd (congrArg Database.current heq) hother
  · exact hunchanged

/-- A refresh with the inputs of the call that published what is current. -/
theorem run_settles (hv : Valid db)
    (hload : ∀ slice, currentSlice db = some slice → Fits slice priorLimits)
    {prior : PriorGitHubContribution}
    (hid : currentSnapshotId db = some ((githubPublication hash timestamp parsers prior inputs
      repository outcome).snapshotId hash))
    (hretains : Retains hash timestamp parsers prior inputs repository outcome
      (priorOf (sourceIdOf repository) (currentSlice db)))
    (hsettles : Settles prior outcome outcome') :
    ∃ report, (SyncCall.online (inputs.at now) repository outcome').run hash timestamp parsers db =
      .ok (report, db) ∧ report.unchanged = true ∧ currentSnapshotId db = some report.snapshotId := by
  have hloads : PriorLoads (currentSlice db) (.online (inputs.at now) repository outcome') := hload
  obtain ⟨report, hrun, hunchanged, hreport⟩ :=
    run_current hv hloads hid (sameState_settles hretains hsettles)
  exact ⟨report, hrun, hunchanged, hid.trans (congrArg some hreport.symm)⟩

end Calls

/-! ### A repository with one issue -/

/-- A run of one call. -/
theorem exists_run_of_synced {condition : CallCondition} {hash : String → String}
    {timestamp : Int → Option String} {parsers : Parsers} {call : SyncCall}
    {publications : List Publication} {db : Database}
    (h : Synced hash timestamp parsers condition [call] publications db) :
    ∃ report, call.run hash timestamp parsers Database.empty = .ok (report, db) := by
  generalize heq : [call] = calls at h
  cases h with
  | nil => exact absurd heq (List.cons_ne_nil _ _)
  | @snoc before _ _ _ last report hbefore _ hcall =>
    obtain ⟨rfl, hlast⟩ := List.append_inj' (show [] ++ [call] = before ++ [last] from heq) rfl
    obtain rfl := List.singleton_inj.mp hlast
    generalize hnil : ([] : List SyncCall) = calls at hbefore
    cases hbefore with
    | nil => exact ⟨report, hcall⟩
    | snoc => exact absurd hnil (by simp)

/-- The issue is fetched, and then GitHub cannot be reached. -/
theorem exists_failedRefresh : ∃ report db report' db',
    fetchIssue.run id (fun _ => none) noParsers Database.empty = .ok (report, db) ∧
      report.unchanged = false ∧ currentSlice db = lastSlice id (samplePlan [fetchIssue]) ∧
      (failedRefresh widget).run id (fun _ => none) noParsers db = .ok (report', db') ∧
      report'.unchanged = false ∧
      currentSlice db' = lastSlice id (samplePlan [fetchIssue, failedRefresh widget]) := by
  obtain ⟨hnew, _, hrun⟩ := @synced_failedRefresh (fun _ _ _ => True) widget (Or.inl rfl) trivial
    (fun _ => trivial)
  obtain ⟨_, db, hfetched, -, report', db', hfailed⟩ := (@synced_concat id (fun _ => none) noParsers _
    [fetchIssue] (failedRefresh widget)).mp ⟨_, _, hrun⟩
  obtain ⟨report, hfetch⟩ := exists_run_of_synced hfetched
  have hfresh : report.unchanged = false := unchanged_eq_false hfetch nofun
  obtain ⟨-, hid, hslice, -⟩ := run_new hfetch hfresh rfl
  have hstale : report'.unchanged = false := by
    refine unchanged_eq_false hfailed ?_
    rw [hid, hslice]
    intro heq
    exact (List.rel_of_pairwise_cons hnew (List.mem_singleton_self _)) (Option.some.inj heq)
  obtain ⟨-, -, hslice', -⟩ := run_new hfailed hstale rfl
  rw [hslice] at hslice'
  exact ⟨report, db, report', db', hfetch, hfresh, hslice, hfailed, hstale, hslice'⟩

section Refreshes

variable {hash : String → String} {timestamp : Int → Option String} {parsers : Parsers}
  {db db' db'' : Database} {inputs : LocalInputs} {repository : GitHubRepository}
  {outcome outcome' : GitHubSyncOutcome} {now : String} {report report' : SyncReport}

/-- **A refresh without news** leaves the snapshot and the database as they are: after a call that
    published, with the same local inputs, when GitHub has nothing new; and while it stays
    unavailable, when there was something to retain before. -/
theorem refresh_unchanged (hdb : Reachable db)
    (hfirst : (SyncCall.online inputs repository outcome).run hash timestamp parsers db =
      .ok (report, db'))
    (hnew : report.unchanged = false)
    (hsettles : Settles (priorOf (sourceIdOf repository) (currentSlice db)) outcome outcome')
    (hload : ∀ slice, currentSlice db' = some slice → Fits slice priorLimits) :
    ∃ report', (SyncCall.online (inputs.at now) repository outcome').run hash timestamp parsers db' =
        .ok (report', db') ∧ report'.unchanged = true ∧
      currentSnapshotId db' = some report'.snapshotId := by
  obtain ⟨-, hid, hslice, -⟩ := run_new (p := githubPublication hash timestamp parsers _ inputs
    repository outcome) hfirst hnew rfl
  have hvalid := (reachable_of_publishes hdb (publishes_of_run hfirst)).valid
  refine run_settles hvalid hload hid ?_ hsettles
  rw [hslice]
  exact retains_slice

/-- GitHub has nothing new about the issue. -/
theorem refresh_unchanged_sample : ∃ report db report',
    fetchIssue.run id (fun _ => none) noParsers Database.empty = .ok (report, db) ∧
      (SyncCall.online ((historyInputs [firstCommit]).at "later") widget (.notModified budget)).run id
        (fun _ => none) noParsers db = .ok (report', db) ∧ report'.unchanged = true := by
  obtain ⟨report, db, -, -, hfetch, hfresh, hslice, -⟩ := exists_failedRefresh
  have hload : ∀ slice, currentSlice db = some slice → Fits slice priorLimits := by
    intro slice hcurrent
    rw [hslice] at hcurrent
    obtain rfl := Option.some.inj hcurrent
    exact ⟨by decide, by decide, by decide⟩
  obtain ⟨report', hrun, hunchanged, -⟩ := refresh_unchanged .empty hfetch hfresh
    (.answered budget nofun) hload
  exact ⟨report, db, report', hfetch, hrun, hunchanged⟩

/-- The calls that bring nothing new: the local inputs are the same, and GitHub has no news or cannot
    be reached. -/
inductive WithoutNews (inputs : LocalInputs) (repository : GitHubRepository) : SyncCall → Prop where
  | answered (now : String) (rateLimit : GitHubRateLimitView) :
      WithoutNews inputs repository (.online (inputs.at now) repository (.notModified rateLimit))
  | failed (now : String) :
      WithoutNews inputs repository (.online (inputs.at now) repository .failed)

/-- What is left after a call that published and an outage that did: the stale snapshot is current, it
    retains what the first call published, and the snapshot of that call is still stored. -/
structure Outage (hash : String → String) (timestamp : Int → Option String) (parsers : Parsers)
    (prior : PriorGitHubContribution) (inputs : LocalInputs) (repository : GitHubRepository)
    (outcome : GitHubSyncOutcome) (db : Database) : Prop where
  stored : (githubPublication hash timestamp parsers prior inputs repository outcome).snapshotId hash ∈
    db.snapshots
  left : currentSnapshotId db ≠ some ((githubPublication hash timestamp parsers prior inputs repository
    outcome).snapshotId hash)
  retains : Retains hash timestamp parsers prior inputs repository outcome
    (priorOf (sourceIdOf repository) (currentSlice db))
  stale : ∃ prior' now, prior'.source.isSome ∧
    currentSnapshotId db = some ((githubPublication hash timestamp parsers prior' (inputs.at now)
      repository .failed).snapshotId hash) ∧
    Retains hash timestamp parsers prior' (inputs.at now) repository .failed
      (priorOf (sourceIdOf repository) (currentSlice db))

theorem outage_of_run
    (hfirst : (SyncCall.online inputs repository outcome).run hash timestamp parsers db =
      .ok (report, db'))
    (hnew : report.unchanged = false)
    (hfailed : (SyncCall.online (inputs.at now) repository .failed).run hash timestamp parsers db' =
      .ok (report', db''))
    (hnew' : report'.unchanged = false) :
    Outage hash timestamp parsers (priorOf (sourceIdOf repository) (currentSlice db)) inputs repository
      outcome db'' := by
  obtain ⟨-, -, hslice, hsnapshots⟩ := run_new (p := githubPublication hash timestamp parsers _ inputs
    repository outcome) hfirst hnew rfl
  obtain ⟨hother, hcurrent, hslice', hsnapshots'⟩ := run_new (p := githubPublication hash timestamp
    parsers _ (inputs.at now) repository .failed) hfailed hnew' rfl
  rw [hslice] at hother hcurrent hslice'
  have hretains := @retains_slice hash timestamp parsers (currentSlice db) inputs repository outcome
  have hstored := (hsnapshots _).mpr (Or.inl rfl)
  obtain ⟨source, hsource, -⟩ := hretains.source
  constructor
  · exact (hsnapshots' _).mpr (Or.inr hstored)
  · rw [hcurrent]
    intro heq
    rw [Option.some.inj heq] at hother
    exact hother hstored
  · rw [hslice']
    exact hretains.failed
  · refine ⟨_, now, ?_, hcurrent, ?_⟩
    · rw [hsource]
      rfl
    · rw [hslice']
      exact retains_slice

/-- **After an outage.** A call that GitHub answered published, and then one that could not reach it
    did.  From then on, as long as there is nothing new, the stale snapshot stays: a call that GitHub
    answers again is refused, because its state was left before. -/
theorem refresh_after_failure (hdb : Reachable db)
    (hfirst : (SyncCall.online inputs repository outcome).run hash timestamp parsers db =
      .ok (report, db'))
    (hnew : report.unchanged = false) (hanswered : outcome ≠ .failed)
    (hfailed : (SyncCall.online (inputs.at now) repository .failed).run hash timestamp parsers db' =
      .ok (report', db''))
    (hnew' : report'.unchanged = false)
    (hload : ∀ slice, currentSlice db'' = some slice → Fits slice priorLimits)
    {calls : List SyncCall} (hcalls : ∀ call ∈ calls, WithoutNews inputs repository call) :
    calls.foldl (SyncCall.after hash timestamp parsers) db'' = db'' ∧
      (∀ now rateLimit, (SyncCall.online (inputs.at now) repository
        (.notModified rateLimit)).run hash timestamp parsers db'' =
          .error (.store (.database "UNIQUE constraint failed: snapshots.id"))) ∧
      ∀ now, ∃ report, (SyncCall.online (inputs.at now) repository .failed).run hash timestamp parsers
        db'' = .ok (report, db'') ∧ report.unchanged = true := by
  have houtage := outage_of_run hfirst hnew hfailed hnew'
  have hvalid := (reachable_of_publishes (reachable_of_publishes hdb (publishes_of_run hfirst))
    (publishes_of_run hfailed)).valid
  have hrefused : ∀ now rateLimit, (SyncCall.online (inputs.at now) repository
      (.notModified rateLimit)).run hash timestamp parsers db'' =
        .error (.store (.database "UNIQUE constraint failed: snapshots.id")) := by
    intro now' rateLimit
    have hloads : PriorLoads (currentSlice db'')
      (.online (inputs.at now') repository (.notModified rateLimit)) := hload
    -- the answer makes the source fresh again, as it was in the first call
    exact run_refused hvalid hloads houtage.left houtage.stored
      (sameState_settles houtage.retains (.answered rateLimit hanswered))
  have hkept : ∀ now, ∃ report, (SyncCall.online (inputs.at now) repository .failed).run hash
      timestamp parsers db'' = .ok (report, db'') ∧ report.unchanged = true := by
    intro now'
    obtain ⟨prior', _, hsource, hcurrent, hretains⟩ := houtage.stale
    obtain ⟨report, hrun, hunchanged, -⟩ :=
      run_settles hvalid hload hcurrent hretains (.failed hsource)
    exact ⟨report, hrun, hunchanged⟩
  refine ⟨?_, hrefused, hkept⟩
  induction calls with
  | nil => rfl
  | cons call calls ih =>
    have hafter : call.after hash timestamp parsers db'' = db'' := by
      unfold SyncCall.after
      cases hcalls call List.mem_cons_self with
      | answered now rateLimit => rw [hrefused]
      | failed now =>
        obtain ⟨report, hrun, -⟩ := hkept now
        rw [hrun]
    rw [List.foldl_cons, hafter]
    exact ih (fun call h => hcalls call (List.mem_cons_of_mem _ h))

/-- Another failure, and then an answer. -/
def laterCalls : List SyncCall :=
  [failedRefresh widget, .online ((historyInputs [firstCommit]).at "later") widget (.notModified budget)]

/-- Once the issue is stale, it stays so. -/
theorem refresh_after_failure_sample : ∃ report db report' db',
    fetchIssue.run id (fun _ => none) noParsers Database.empty = .ok (report, db) ∧
      (failedRefresh widget).run id (fun _ => none) noParsers db = .ok (report', db') ∧
      laterCalls.foldl (SyncCall.after id (fun _ => none) noParsers) db' = db' ∧
      (SyncCall.online ((historyInputs [firstCommit]).at "later") widget (.notModified budget)).run id
        (fun _ => none) noParsers db' =
          .error (.store (.database "UNIQUE constraint failed: snapshots.id")) := by
  obtain ⟨report, db, report', db', hfetch, hfresh, -, hfailed, hstale, hslice⟩ := exists_failedRefresh
  have hload : ∀ slice, currentSlice db' = some slice → Fits slice priorLimits := by
    intro slice hcurrent
    rw [hslice] at hcurrent
    obtain rfl := Option.some.inj hcurrent
    exact ⟨by decide, by decide, by decide⟩
  have hcalls : ∀ call ∈ laterCalls, WithoutNews (historyInputs [firstCommit]) widget call := by
    intro call hcall
    rcases List.mem_pair.mp hcall with rfl | rfl
    · exact .failed "now"
    · exact .answered "later" budget
  obtain ⟨hstays, hrefused, -⟩ := @refresh_after_failure id (fun _ => none) noParsers _ _ _ _ widget _
    "now" _ _ .empty hfetch hfresh nofun hfailed hstale hload _ hcalls
  exact ⟨report, db, report', db', hfetch, hfailed, hstays, hrefused "later" budget⟩

end Refreshes

end Rationale.Engine
