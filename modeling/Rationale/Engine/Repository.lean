import Rationale.Engine.Plan

namespace Rationale.Engine

open Std Rationale.Library Rationale.Docs Rationale.Git Rationale.GitHub Rationale.Store

/-!
# One repository's evidence over a run

The prior contribution is whatever the current snapshot has of GitHub's kind, whichever repository
it came from.

* `Fetched`, `FromRepository` — evidence that GitHub returned for one repository;
* `NoLeak` — the snapshot that was published for a repository has no other GitHub evidence;
* `RetainsOwn` — the condition on one call: without new data it is for the repository of the call
  before it, or there is no GitHub evidence to retain;
* `noLeak_of_retainsOwn` — the runs whose calls meet it keep `NoLeak`.
-/

/-- GitHub returned the contribution for the repository, in one of the calls. -/
def Fetched (hash : String → String) (run : List SyncCall) (repository : GitHubRepository)
    (contribution : Contribution) : Prop :=
  ∃ inputs items commits cursor rateLimit,
    SyncCall.online inputs repository (.updated items commits cursor rateLimit) ∈ run ∧
      contribution = buildEvidence hash repository items commits

/-- All GitHub evidence of a slice was fetched from one repository. -/
structure FromRepository (hash : String → String) (run : List SyncCall)
    (repository : GitHubRepository) (slice : GraphSlice) : Prop where
  records : ∀ node ∈ slice.nodes, isGithubNode node = true →
    ∃ contribution, Fetched hash run repository contribution ∧ node ∈ contribution.records
  edges : ∀ edge ∈ slice.edges, isGithubEdge edge = true →
    ∃ contribution, Fetched hash run repository contribution ∧ edge ∈ contribution.edges

/-- **No evidence leaks** into the snapshot of another repository. -/
def NoLeak (hash : String → String) (run : List SyncCall) (db : Database) : Prop :=
  ∀ inputs repository outcome slice,
    run.getLast? = some (SyncCall.online inputs repository outcome) →
    currentSlice db = some slice → FromRepository hash run repository slice

/-- No record and no edge of the slice is of GitHub's kind. -/
def NoGithub (slice : GraphSlice) : Prop :=
  (∀ node ∈ slice.nodes, isGithubNode node = false) ∧
    ∀ edge ∈ slice.edges, isGithubEdge edge = false

/-- The condition on a call: what it retains is of its own repository, or it retains nothing. -/
def RetainsOwn : CallCondition := fun run db call =>
  match call with
  | .offline _ | .online _ _ (.updated _ _ _ _) => True
  | .online _ repository (.notModified _) | .online _ repository .failed =>
      (∃ inputs outcome, run.getLast? = some (SyncCall.online inputs repository outcome)) ∨
        ∀ slice, currentSlice db = some slice → NoGithub slice

section Runs

variable {hash : String → String} {timestamp : Int → Option String} {parsers : Parsers}
  {run : List SyncCall} {call : SyncCall} {inputs : LocalInputs} {repository : GitHubRepository}
  {outcome : GitHubSyncOutcome} {db db' : Database} {slice : GraphSlice}

/-- What was fetched stays fetched. -/
theorem Fetched.concat {contribution : Contribution} (h : Fetched hash run repository contribution) :
    Fetched hash (run ++ [call]) repository contribution := by
  obtain ⟨inputs, items, commits, cursor, rateLimit, hmem, heq⟩ := h
  exact ⟨inputs, items, commits, cursor, rateLimit, List.mem_append_left _ hmem, heq⟩

/-- The GitHub evidence of a combined sync is what was merged. -/
theorem fromRepository_of_merged {prior : PriorGitHubContribution}
    (hshows : ShowsEvidence slice
      (githubPublication hash timestamp parsers prior inputs repository outcome))
    (hrecords : ∀ node ∈ (mergedContribution hash prior repository outcome).records,
      ∃ contribution, Fetched hash run repository contribution ∧ node ∈ contribution.records)
    (hedges : ∀ edge ∈ (mergedContribution hash prior repository outcome).edges,
      ∃ contribution, Fetched hash run repository contribution ∧ edge ∈ contribution.edges) :
    FromRepository hash run repository slice := by
  constructor
  · intro node hnode hgithub
    rw [hshows.nodes] at hnode
    rcases values_records_combined hnode with hlocal | hmerged
    · rw [not_isGithubNode_local hlocal] at hgithub
      exact nomatch hgithub
    · exact hrecords node hmerged
  · intro edge hedge hgithub
    rw [hshows.edges] at hedge
    rcases values_edges_combined hedge with hlocal | hmerged
    · rw [not_isGithubEdge_local hlocal] at hgithub
      exact nomatch hgithub
    · exact hedges edge hmerged

/-- What a call without new data retains was fetched from its repository. -/
theorem fetched_of_retained (h : NoLeak hash run db)
    (hretains : (∃ inputs outcome,
        run.getLast? = some (SyncCall.online inputs repository outcome)) ∨
      ∀ slice, currentSlice db = some slice → NoGithub slice) (call : SyncCall) :
    (∀ node ∈ (priorOf (sourceIdOf repository) (currentSlice db)).records, ∃ contribution,
      Fetched hash (run ++ [call]) repository contribution ∧ node ∈ contribution.records) ∧
    ∀ edge ∈ (priorOf (sourceIdOf repository) (currentSlice db)).edges, ∃ contribution,
      Fetched hash (run ++ [call]) repository contribution ∧ edge ∈ contribution.edges := by
  cases hslice : currentSlice db with
  | none =>
    exact ⟨fun _ hnode => absurd hnode List.not_mem_nil, fun _ hedge => absurd hedge List.not_mem_nil⟩
  | some slice =>
    rcases hretains with ⟨inputs, outcome, hlast⟩ | hnone
    · have hfrom := h inputs repository outcome slice hlast hslice
      refine ⟨fun node hnode => ?_, fun edge hedge => ?_⟩
      · obtain ⟨hmem, hgithub⟩ := List.mem_filter.mp hnode
        obtain ⟨contribution, hfetched, hin⟩ := hfrom.records node hmem hgithub
        exact ⟨contribution, hfetched.concat, hin⟩
      · obtain ⟨hmem, hgithub⟩ := List.mem_filter.mp hedge
        obtain ⟨contribution, hfetched, hin⟩ := hfrom.edges edge hmem hgithub
        exact ⟨contribution, hfetched.concat, hin⟩
    · obtain ⟨hnodes, hedges⟩ := hnone slice hslice
      refine ⟨fun node hnode => ?_, fun edge hedge => ?_⟩
      · obtain ⟨hmem, hgithub⟩ := List.mem_filter.mp hnode
        rw [hnodes node hmem] at hgithub
        exact nomatch hgithub
      · obtain ⟨hmem, hgithub⟩ := List.mem_filter.mp hedge
        rw [hedges edge hmem] at hgithub
        exact nomatch hgithub

/-- One call that meets the condition lets nothing leak. -/
theorem NoLeak.step (h : NoLeak hash run db) (hcondition : RetainsOwn run db call)
    (hcurrent : IsCurrent hash db' (call.publication hash timestamp parsers (currentSlice db))) :
    NoLeak hash (run ++ [call]) db' := by
  intro inputs repository outcome slice hlast hslice
  rw [List.getLast?_concat] at hlast
  obtain rfl := Option.some.inj hlast
  obtain ⟨shown, hshown, hshows⟩ := hcurrent.currentSlice
  obtain rfl := Option.some.inj (hslice.symm.trans hshown)
  cases outcome with
  | updated items commits cursor rateLimit =>
    have hfetched : Fetched hash
        (run ++ [.online inputs repository (.updated items commits cursor rateLimit)]) repository
        (buildEvidence hash repository items commits) :=
      ⟨inputs, items, commits, cursor, rateLimit, by simp, rfl⟩
    exact fromRepository_of_merged hshows (fun _ hnode => ⟨_, hfetched, hnode⟩)
      (fun _ hedge => ⟨_, hfetched, hedge⟩)
  | notModified rateLimit =>
    obtain ⟨hrecords, hedges⟩ := fetched_of_retained h hcondition
      (.online inputs repository (.notModified rateLimit))
    exact fromRepository_of_merged hshows hrecords hedges
  | failed =>
    obtain ⟨hrecords, hedges⟩ := fetched_of_retained h hcondition
      (.online inputs repository .failed)
    exact fromRepository_of_merged hshows hrecords hedges

/-- **One repository's evidence over a run.** In every run whose calls meet the condition no GitHub
    evidence leaks, as long as different evidence has different snapshot identifiers. -/
theorem noLeak_of_retainsOwn {publications : List Publication}
    (h : Synced hash timestamp parsers RetainsOwn run publications db)
    (hcollision : CollisionFree hash publications) : NoLeak hash run db := by
  induction h with
  | nil => exact fun _ _ _ _ hlast => nomatch hlast
  | snoc hrun hcondition hcall ih =>
    have htracks := hrun.tracks hcollision.left
    exact (ih hcollision.left).step hcondition
      (htracks.isCurrent_of_publishes hcollision (publishes_of_run hcall))

end Runs

/-! ### A remote that changes -/

/-- GitHub answers with issue 1. -/
def fetchIssue : SyncCall := .online (historyInputs [firstCommit]) widget
  (.updated [⟨1, none, "issues/1", false⟩] (fun _ => []) "etag" budget)

/-- A refresh of this repository fails. -/
def failedRefresh (repository : GitHubRepository) : SyncCall :=
  .online (historyInputs [firstCommit]) repository .failed

def gadget : GitHubRepository := ⟨"acme", "gadget"⟩

set_option maxRecDepth 2000

/-- The two calls go through, under any condition that they meet. -/
theorem synced_failedRefresh {condition : CallCondition} {repository : GitHubRepository}
    (hrepository : repository = widget ∨ repository = gadget)
    (hfetch : condition [] Database.empty fetchIssue)
    (hrefresh : ∀ db, condition [fetchIssue] db (failedRefresh repository)) :
    NewIds id (samplePlan [fetchIssue, failedRefresh repository]) ∧
      ∃ db, Synced id (fun _ => none) noParsers condition [fetchIssue, failedRefresh repository]
        (samplePlan [fetchIssue, failedRefresh repository]) db := by
  have hnew : NewIds id (samplePlan [fetchIssue, failedRefresh repository]) := by
    unfold NewIds
    rcases hrepository with rfl | rfl <;> decide
  have hload : PriorLoads (lastSlice id (samplePlan [fetchIssue])) (failedRefresh repository) := by
    intro slice hslice
    obtain rfl := Option.some.inj hslice
    exact ⟨by decide, by decide, by decide⟩
  refine ⟨hnew, synced_pair hfetch (fun db _ => hrefresh db) hnew hload (fun q hq => ?_)⟩
  obtain rfl := List.mem_singleton.mp hq
  rcases hrepository with rfl | rfl <;> exact ⟨by decide, by decide⟩

/-- A failed refresh of the same repository leaks nothing. -/
theorem noLeak_same_repository :
    ∃ db, Synced id (fun _ => none) noParsers RetainsOwn [fetchIssue, failedRefresh widget]
        (samplePlan [fetchIssue, failedRefresh widget]) db ∧
      NoLeak id [fetchIssue, failedRefresh widget] db := by
  obtain ⟨hnew, db, hrun⟩ := @synced_failedRefresh RetainsOwn widget (Or.inl rfl) trivial
    (fun _ => Or.inl ⟨_, _, rfl⟩)
  exact ⟨db, hrun, noLeak_of_retainsOwn hrun hnew.collisionFree⟩

/-- **A leak.** After a failed refresh of another repository, the issue of the first one is in the
    snapshot that is published for the second. -/
theorem not_noLeak_other_repository :
    ∃ db, Synced id (fun _ => none) noParsers (fun _ _ _ => True) [fetchIssue, failedRefresh gadget]
        (samplePlan [fetchIssue, failedRefresh gadget]) db ∧
      CollisionFree id (samplePlan [fetchIssue, failedRefresh gadget]) ∧
      ¬ NoLeak id [fetchIssue, failedRefresh gadget] db := by
  obtain ⟨hnew, db, hrun⟩ := @synced_failedRefresh (fun _ _ _ => True) gadget (Or.inr rfl) trivial
    (fun _ => trivial)
  refine ⟨db, hrun, hnew.collisionFree, fun h => ?_⟩
  obtain ⟨-, -, hcurrent⟩ := hrun.eq_plan hnew
  have hissue : ∀ slice ∈ lastSlice id (samplePlan [fetchIssue, failedRefresh gadget]),
      ∃ node ∈ slice.nodes, isGithubNode node = true := by
    decide
  obtain ⟨slice, hslice⟩ : ∃ slice,
      lastSlice id (samplePlan [fetchIssue, failedRefresh gadget]) = some slice := ⟨_, rfl⟩
  obtain ⟨node, hnode, hgithub⟩ := hissue slice hslice
  rw [hslice] at hcurrent
  obtain ⟨_, ⟨inputs, items, commits, cursor, rateLimit, hmem, -⟩, -⟩ :=
    (h _ gadget _ slice rfl hcurrent).records node hnode hgithub
  -- nothing was ever fetched for the second repository
  rcases List.mem_pair.mp hmem with heq | heq
  · exact absurd (SyncCall.online.inj heq).2.1 (by decide)
  · exact nomatch (SyncCall.online.inj heq).2.2

end Rationale.Engine
