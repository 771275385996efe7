import Rationale.Engine.Plan

namespace Rationale.Engine

open Std Rationale.Library Rationale.Docs Rationale.Git Rationale.GitHub Rationale.Store

/-!
# The GitHub cursor over a run

A stored cursor says that the snapshot has the contribution that came with it, so that an answer
"not modified" needs no records.

* `held` — the contribution that GitHub returned with the cursor that is now stored;
* `CursorSound` — the current snapshot stores that cursor and has that contribution;
* `KeepsContribution` — the condition on one call: when the prior contribution is retained, no
  record that a local one stood in for is needed again;
* `Synced.cursorSound` — the runs whose calls meet it keep `CursorSound`.
-/

/-- A contribution and the cursor that GitHub returned with it. -/
structure Held where
  repository : GitHubRepository
  cursor : String
  contribution : Contribution
  wellFormed : WellFormed contribution

/-- What is held after a call.  Without new data the earlier contribution stays, if it is of the
    same source; an offline call stores no cursor. -/
def SyncCall.held (hash : String → String) (before : Option Held) : SyncCall → Option Held
  | .offline _ => none
  | .online _ repository (.updated items commits cursor _) =>
      some ⟨repository, cursor, buildEvidence hash repository items commits,
        wellFormed_buildEvidence hash repository items commits⟩
  | .online _ repository (.notModified _) | .online _ repository .failed =>
      before.filter (fun held => sourceIdOf held.repository = sourceIdOf repository)

/-- What is held after a run. -/
def held (hash : String → String) (run : List SyncCall) : Option Held :=
  run.foldl (SyncCall.held hash) none

/-- The snapshot has a record for every identifier of a contribution, and all its edges. -/
structure Contains (slice : GraphSlice) (contribution : Contribution) : Prop where
  records : ∀ record ∈ contribution.records, ∃ node ∈ slice.nodes, node.id = record.id
  edges : ∀ edge ∈ contribution.edges, edge ∈ slice.edges

/-- **The stored cursor is sound**: the snapshot stores the cursor that is held, and contains the
    contribution that came with it. -/
def CursorSound (hash : String → String) (run : List SyncCall) (db : Database) : Prop :=
  ∀ h, held hash run = some h → ∃ slice, currentSlice db = some slice ∧
    (priorOfSlice (sourceIdOf h.repository) slice).source.bind (·.cursor) = some h.cursor ∧
    Contains slice h.contribution

section Condition

variable (hash : String → String) (parsers : Parsers)

/-- No local relationship has the identifier of another one of the contribution. -/
def OwnEdgeIds (inputs : LocalInputs) (contribution : Contribution) : Prop :=
  ∀ edge ∈ contribution.edges, ∀ other ∈ proposedEdges hash inputs.history.commits
    (ingestedDocuments hash parsers inputs), other.id = edge.id → other = edge

/-- The records of the contribution that the current snapshot has from documents or commits are
    still document or commit records. -/
def StaysLocal (db : Database) (inputs : LocalInputs) (contribution : Contribution) : Prop :=
  ∀ slice, currentSlice db = some slice → ∀ node ∈ slice.nodes, isGithubNode node = false →
    (∃ record ∈ contribution.records, record.id = node.id) →
    LocalId inputs.history.commits (ingestedDocuments hash parsers inputs) node.id

/-- The condition on a call: its local relationships have identifiers of their own, and when it
    retains a contribution, the records that stood in for GitHub's are still there. -/
def KeepsContribution : CallCondition := fun run db call =>
  ∀ h, call.held hash (held hash run) = some h →
    match call with
    | .offline _ => True
    | .online inputs _ (.updated _ _ _ _) => OwnEdgeIds hash parsers inputs h.contribution
    | .online inputs _ (.notModified _) | .online inputs _ .failed =>
        OwnEdgeIds hash parsers inputs h.contribution ∧
          StaysLocal hash parsers db inputs h.contribution

end Condition

section Sound

variable {hash : String → String} {timestamp : Int → Option String} {parsers : Parsers}
  {inputs : LocalInputs} {repository : GitHubRepository} {outcome : GitHubSyncOutcome}
  {prior : PriorGitHubContribution} {slice slice' : GraphSlice} {contribution : Contribution}
  {db : Database}

theorem held_concat {run : List SyncCall} {call : SyncCall} :
    held hash (run ++ [call]) = call.held hash (held hash run) := by
  unfold held
  rw [List.foldl_append]
  rfl

/-- The three sources of a combined sync have different identifiers. -/
theorem nodup_sources (localSync : LocalSync) (now : String) :
    ((localSources localSync now ++ [githubSource prior repository now outcome]).map
      (·.sourceId)).Nodup := by
  have hid : (githubSource prior repository now outcome).sourceId = "github:" ++ repository.slug := by
    cases outcome <;> rfl
  -- GitHub's identifier starts with another letter than the local ones
  have hne : ∀ name : String, name.toList.head? ≠ some 'g' → name ≠ "github:" ++ repository.slug := by
    intro name hname heq
    rw [heq, String.toList_append] at hname
    exact hname rfl
  have hgit := hne "local-git" (by decide)
  have hdocuments := hne "repository-documents" (by decide)
  show ["local-git", "repository-documents",
    (githubSource prior repository now outcome).sourceId].Nodup
  rw [hid]
  simp [hgit, hdocuments]

/-- What a snapshot stores about GitHub is what was published, apart from the time. -/
theorem source_githubPublication
    (hshows : ShowsEvidence slice'
      (githubPublication hash timestamp parsers prior inputs repository outcome)) :
    (priorOfSlice (sourceIdOf repository) slice').source.bind (·.cursor) =
      (githubSource prior repository inputs.now outcome).cursor := by
  let p := githubPublication hash timestamp parsers prior inputs repository outcome
  let github := githubSource prior repository inputs.now outcome
  have hid : github.sourceId = sourceIdOf repository := by
    show (githubSource prior repository inputs.now outcome).sourceId = _
    cases outcome <;> rfl
  have hperm : p.timelessSources.Perm (p.sources.map SourceState.timeless) :=
    (sortBy_perm p.sources).map _
  have hnodup : (p.timelessSources.map (·.sourceId)).Nodup := by
    rw [(hperm.map _).nodup_iff, List.map_map]
    exact nodup_sources _ _
  have hmem : SourceState.timeless github ∈ p.timelessSources := by
    rw [hperm.mem_iff]
    exact List.mem_map_of_mem (List.mem_append_right _ (List.mem_singleton_self github))
  -- no other source has GitHub's identifier, so the stored map holds this one
  have hstored : (indexBy SourceState.sourceId p.timelessSources :
      StringMap SourceState)[sourceIdOf repository]? = some (SourceState.timeless github) :=
    (getElem?_indexBy_of_nodup hnodup).mpr ⟨hmem, hid⟩
  have hfind : (slice'.sources.find? (·.sourceId = sourceIdOf repository)).map
      SourceState.timeless = some (SourceState.timeless github) := by
    have hsame : (fun source : SourceState => decide (source.sourceId = sourceIdOf repository)) ∘
        SourceState.timeless = fun source => decide (source.sourceId = sourceIdOf repository) := rfl
    rw [← hstored, ← keyedBy_indexBy.find?_values, ← hshows.sources, List.find?_map, hsame]
  obtain ⟨source, hsource, htimeless⟩ := Option.map_eq_some_iff.mp hfind
  have hcursor : (SourceState.timeless source).cursor = (SourceState.timeless github).cursor := by
    rw [htimeless]
  show (slice'.sources.find? (·.sourceId = sourceIdOf repository)).bind (·.cursor) = _
  rw [hsource]
  exact hcursor

/-- A slice that shows a combined sync contains what was merged, as far as its ends are there. -/
theorem contains_of_merged {merged : Contribution} (hform : WellFormed contribution)
    (hnodes : slice'.nodes =
      values (combinedEvidence hash timestamp parsers inputs merged).records)
    (hedges : slice'.edges = values (combinedEvidence hash timestamp parsers inputs merged).edges)
    (hrecords : ∀ record ∈ contribution.records,
      LocalId inputs.history.commits (ingestedDocuments hash parsers inputs) record.id ∨
        ∃ node ∈ merged.records, node.id = record.id)
    (hmerged : ∀ edge ∈ contribution.edges, edge ∈ merged.edges)
    (hunique : ∀ left ∈ merged.edges, ∀ right ∈ merged.edges, left.id = right.id → left = right)
    (hown : OwnEdgeIds hash parsers inputs contribution) : Contains slice' contribution := by
  let combined := combinedEvidence hash timestamp parsers inputs merged
  have hids : ∀ record ∈ contribution.records, record.id ∈ combined.records :=
    fun record hrecord => mem_records_combined.mpr (hrecords record hrecord)
  constructor
  · intro record hrecord
    rw [hnodes]
    exact combined.records_keyed.mem_iff.mp (hids record hrecord)
  · intro edge hedge
    obtain ⟨⟨source, hsource, hsourceId⟩, target, htarget, htargetId⟩ := hform.closed edge hedge
    have hends : edgeResolved combined.records edge := by
      rw [edgeResolved_iff, ← hsourceId, ← htargetId]
      exact ⟨hids source hsource, hids target htarget⟩
    rw [hedges]
    exact mem_edges_combined (hmerged edge hedge) hends (hown edge hedge)
      (fun other hother => hunique other hother edge (hmerged edge hedge))

/-- New data is contained in the snapshot that it was merged into. -/
theorem contains_updated {items : List ApiItem} {commits : Nat → List ApiCommit} {cursor : String}
    {rateLimit : GitHubRateLimitView}
    (hshows : ShowsEvidence slice' (githubPublication hash timestamp parsers prior inputs repository
      (.updated items commits cursor rateLimit)))
    (hown : OwnEdgeIds hash parsers inputs (buildEvidence hash repository items commits)) :
    Contains slice' (buildEvidence hash repository items commits) := by
  have hform := wellFormed_buildEvidence hash repository items commits
  exact contains_of_merged hform hshows.nodes hshows.edges
    (fun record hrecord => Or.inr ⟨record, hrecord, rfl⟩) (fun _ hedge => hedge) hform.edges_unique
    hown

/-- A retained contribution stays contained, when the records that stood in for its own do. -/
theorem contains_retained (hform : WellFormed contribution) (hcontains : Contains slice contribution)
    (hslice : currentSlice db = some slice)
    (hunique : ∀ left ∈ slice.edges, ∀ right ∈ slice.edges, left.id = right.id → left = right)
    (hnodes : slice'.nodes = values (combinedEvidence hash timestamp parsers inputs
      ⟨slice.nodes.filter isGithubNode, slice.edges.filter isGithubEdge⟩).records)
    (hedges : slice'.edges = values (combinedEvidence hash timestamp parsers inputs
      ⟨slice.nodes.filter isGithubNode, slice.edges.filter isGithubEdge⟩).edges)
    (hown : OwnEdgeIds hash parsers inputs contribution)
    (hstays : StaysLocal hash parsers db inputs contribution) : Contains slice' contribution := by
  refine contains_of_merged hform hnodes hedges (fun record hrecord => ?_) (fun edge hedge => ?_)
    (fun left hleft right hright hid => ?_) hown
  · obtain ⟨node, hnode, hid⟩ := hcontains.records record hrecord
    cases hkind : isGithubNode node with
    | true => exact Or.inr ⟨node, List.mem_filter.mpr ⟨hnode, hkind⟩, hid⟩
    | false =>
      -- a local record stood in for GitHub's
      have hlocal := hstays slice hslice node hnode hkind ⟨record, hrecord, hid.symm⟩
      rw [hid] at hlocal
      exact Or.inl hlocal
  · exact List.mem_filter.mpr
      ⟨hcontains.edges edge hedge, decide_eq_true (hform.edges_github edge hedge)⟩
  · exact hunique left (List.mem_filter.mp hleft).1 right (List.mem_filter.mp hright).1 hid

/-- Without new data, what was held before a call is held after it. -/
theorem CursorSound.retained {run : List SyncCall} {now : Held} (h : CursorSound hash run db)
    (hunique : ∀ slice, currentSlice db = some slice →
      ∀ left ∈ slice.edges, ∀ right ∈ slice.edges, left.id = right.id → left = right)
    (hshows : ShowsEvidence slice' (SyncCall.publication hash timestamp parsers (currentSlice db)
      (.online inputs repository outcome)))
    (hmerged : ∀ prior : PriorGitHubContribution,
      mergedContribution hash prior repository outcome = ⟨prior.records, prior.edges⟩)
    (hcursor : ∀ prior : PriorGitHubContribution, ∀ cursor,
      prior.source.bind (·.cursor) = some cursor →
      (githubSource prior repository inputs.now outcome).cursor = some cursor)
    (hheld : (held hash run).filter
      (fun h => sourceIdOf h.repository = sourceIdOf repository) = some now)
    (hown : OwnEdgeIds hash parsers inputs now.contribution)
    (hstays : StaysLocal hash parsers db inputs now.contribution) :
    (priorOfSlice (sourceIdOf now.repository) slice').source.bind (·.cursor) = some now.cursor ∧
      Contains slice' now.contribution := by
  obtain ⟨hbefore, hsame⟩ := Option.filter_eq_some_iff.mp hheld
  have hsource : sourceIdOf now.repository = sourceIdOf repository := of_decide_eq_true hsame
  obtain ⟨slice, hslice, hstored, hcontains⟩ := h now hbefore
  have hpublication : SyncCall.publication hash timestamp parsers (currentSlice db)
      (.online inputs repository outcome) = githubPublication hash timestamp parsers
        (priorOfSlice (sourceIdOf repository) slice) inputs repository outcome := by
    rw [hslice]
    rfl
  -- the same repository: what was stored last is the prior contribution of this call
  rw [hpublication] at hshows
  rw [hsource] at hstored ⊢
  constructor
  · rw [source_githubPublication hshows]
    exact hcursor _ _ hstored
  · have hnodes := hshows.nodes
    have hedges := hshows.edges
    unfold githubPublication at hnodes hedges
    rw [hmerged] at hnodes hedges
    exact contains_retained now.wellFormed hcontains hslice (hunique slice hslice) hnodes hedges
      hown hstays

/-- One call that meets the condition keeps the cursor sound. -/
theorem CursorSound.step {run : List SyncCall} {db' : Database} {call : SyncCall}
    (h : CursorSound hash run db) (hcondition : KeepsContribution hash parsers run db call)
    (hunique : ∀ slice, currentSlice db = some slice →
      ∀ left ∈ slice.edges, ∀ right ∈ slice.edges, left.id = right.id → left = right)
    (hcurrent : IsCurrent hash db' (call.publication hash timestamp parsers (currentSlice db))) :
    CursorSound hash (run ++ [call]) db' := by
  intro now hheld
  rw [held_concat] at hheld
  have hkeeps := hcondition now hheld
  obtain ⟨slice', hslice', hshows⟩ := hcurrent.currentSlice
  refine ⟨slice', hslice', ?_⟩
  cases call with
  | offline inputs => exact nomatch hheld
  | online inputs repository outcome =>
    cases outcome with
    | updated items commits cursor rateLimit =>
      obtain rfl := Option.some.inj hheld
      exact ⟨source_githubPublication hshows, contains_updated hshows hkeeps⟩
    | notModified rateLimit =>
      apply h.retained hunique hshows (fun _ => rfl) ?_ hheld hkeeps.1 hkeeps.2
      intro prior cursor hcursor
      show some ((prior.source.bind (·.cursor)).getD defaultCursor) = some cursor
      rw [hcursor]
      rfl
    | failed =>
      apply h.retained hunique hshows (fun _ => rfl) ?_ hheld hkeeps.1 hkeeps.2
      exact fun _ _ hcursor => hcursor

/-- **The GitHub cursor over a run.** In every run whose calls meet the condition the stored cursor
    is sound, as long as different evidence has different snapshot identifiers. -/
theorem cursorSound_of_keepsContribution {run : List SyncCall} {publications : List Publication}
    (h : Synced hash timestamp parsers (KeepsContribution hash parsers) run publications db)
    (hcollision : CollisionFree hash publications) : CursorSound hash run db := by
  induction h with
  | nil => exact fun h hheld => nomatch hheld
  | @snoc run publications db db' call report hrun hcondition hcall ih =>
    have htracks := hrun.tracks hcollision.left
    have hpublish := publishes_of_run hcall
    refine (ih hcollision.left).step hcondition (fun slice hslice left hleft right hright hid => ?_)
      (htracks.isCurrent_of_publishes hcollision hpublish)
    -- a current slice holds the edges of the last publication, one for each identifier
    obtain ⟨p, hp⟩ : ∃ p, publications.getLast? = some p := by
      cases hlast : publications.getLast? with
      | some p => exact ⟨p, rfl⟩
      | none =>
        have hcurrent := htracks.current
        rw [hlast] at hcurrent
        unfold currentSlice at hslice
        rw [hcurrent] at hslice
        exact nomatch hslice
    obtain ⟨slice', hslice', hshows⟩ := (htracks.shows p hp).currentSlice
    obtain rfl := Option.some.inj (hslice.symm.trans hslice')
    rw [hshows.edges, p.evidence.edges_keyed.mem_values_iff] at hleft hright
    rw [hid, hright] at hleft
    exact (Option.some.inj hleft).symm

end Sound

/-! ### A pull request whose commit leaves the local history -/

/-- GitHub answers with pull request 7, which has the first commit, while that commit is in the local
    history. -/
def fetchPull : SyncCall :=
  .online (historyInputs [firstCommit]) widget (.updated [pullItem] pullCommits "etag" budget)

/-- GitHub has no news, and the local history has moved to these commits. -/
def refreshWith (commits : List CommitEvidence) : SyncCall :=
  .online (historyInputs commits) widget (.notModified budget)

/-- What is held after the fetch. -/
def heldPull : Held :=
  ⟨widget, "etag", buildEvidence id widget [pullItem] pullCommits, wellFormed_buildEvidence _ _ _ _⟩

theorem held_fetchPull : held id [fetchPull] = some heldPull := rfl

theorem held_refreshWith (commits : List CommitEvidence) :
    held id [fetchPull, refreshWith commits] = some heldPull := by
  show (held id [fetchPull]).filter (fun h => sourceIdOf h.repository = sourceIdOf widget) = _
  rw [held_fetchPull, Option.filter_some]
  exact if_pos (decide_eq_true rfl)

theorem priorLoads_fetchPull (commits : List CommitEvidence) :
    PriorLoads (lastSlice id (samplePlan [fetchPull])) (refreshWith commits) := by
  intro slice hslice
  obtain rfl := Option.some.inj hslice
  exact ⟨by decide, by decide, by decide⟩

set_option maxRecDepth 4000

/-- While the commit stays local, the cursor stays sound. -/
theorem cursorSound_growingHistory :
    ∃ db, Synced id (fun _ => none) noParsers (KeepsContribution id noParsers)
        [fetchPull, refreshWith [secondCommit, firstCommit]]
        (samplePlan [fetchPull, refreshWith [secondCommit, firstCommit]]) db ∧
      CursorSound id [fetchPull, refreshWith [secondCommit, firstCommit]] db := by
  have hfetch : KeepsContribution id noParsers [] Database.empty fetchPull := by
    intro h hheld
    obtain rfl : heldPull = h := Option.some.inj hheld
    show OwnEdgeIds id noParsers (historyInputs [firstCommit]) heldPull.contribution
    unfold OwnEdgeIds
    decide
  have hrefresh : ∀ db, currentSlice db = lastSlice id (samplePlan [fetchPull]) →
      KeepsContribution id noParsers [fetchPull] db (refreshWith [secondCommit, firstCommit]) := by
    intro db hdb h hheld
    rw [← held_concat, List.singleton_append, held_refreshWith] at hheld
    obtain rfl : heldPull = h := Option.some.inj hheld
    show OwnEdgeIds id noParsers (historyInputs [secondCommit, firstCommit]) heldPull.contribution ∧
      StaysLocal id noParsers db (historyInputs [secondCommit, firstCommit]) heldPull.contribution
    have hlocal : ∀ slice ∈ lastSlice id (samplePlan [fetchPull]), ∀ node ∈ slice.nodes,
        isGithubNode node = false → LocalId [secondCommit, firstCommit]
          (ingestedDocuments id noParsers (historyInputs [secondCommit, firstCommit])) node.id := by
      decide
    refine ⟨?_, fun slice hslice node hnode hkind _ => ?_⟩
    · unfold OwnEdgeIds
      decide
    · rw [hdb] at hslice
      exact hlocal slice hslice node hnode hkind
  have hnew : NewIds id (samplePlan [fetchPull, refreshWith [secondCommit, firstCommit]]) := by
    unfold NewIds
    decide
  obtain ⟨db, hrun⟩ := synced_pair hfetch hrefresh hnew (priorLoads_fetchPull _) (fun q hq => by
    obtain rfl := List.mem_singleton.mp hq
    exact ⟨by decide, by decide⟩)
  exact ⟨db, hrun, cursorSound_of_keepsContribution hrun hnew.collisionFree⟩

/-- **A lost relationship.** When the commit leaves the local history, its pull request loses it for
    good: GitHub answers "not modified" to the cursor that came with both. -/
theorem not_cursorSound_rewrittenHistory :
    ∃ db, Synced id (fun _ => none) noParsers (fun _ _ _ => True)
        [fetchPull, refreshWith [secondCommit]]
        (samplePlan [fetchPull, refreshWith [secondCommit]]) db ∧
      CollisionFree id (samplePlan [fetchPull, refreshWith [secondCommit]]) ∧
      ¬ CursorSound id [fetchPull, refreshWith [secondCommit]] db := by
  have hnew : NewIds id (samplePlan [fetchPull, refreshWith [secondCommit]]) := by
    unfold NewIds
    decide
  have hagree : ∀ q ∈ samplePlan [fetchPull], AgreeOnIds q ((refreshWith [secondCommit]).publication
      id (fun _ => none) noParsers (lastSlice id (samplePlan [fetchPull]))) := by
    intro q hq
    obtain rfl := List.mem_singleton.mp hq
    exact ⟨by decide, by decide⟩
  obtain ⟨db, hrun⟩ : ∃ db, Synced id (fun _ => none) noParsers (fun _ _ _ => True)
      [fetchPull, refreshWith [secondCommit]]
      (samplePlan [fetchPull, refreshWith [secondCommit]]) db :=
    synced_pair trivial (fun _ _ => trivial) hnew (priorLoads_fetchPull _) hagree
  refine ⟨db, hrun, hnew.collisionFree, fun h => ?_⟩
  obtain ⟨-, -, hcurrent⟩ := hrun.eq_plan hnew
  obtain ⟨slice, hslice, -, hcontains⟩ := h heldPull (held_refreshWith _)
  rw [hcurrent] at hslice
  have hedges : ∀ slice ∈ lastSlice id (samplePlan [fetchPull, refreshWith [secondCommit]]),
      slice.edges = [] := by
    decide
  have hmember : heldPull.contribution.edges ≠ [] := by decide
  obtain ⟨edge, hedge⟩ := List.exists_mem_of_ne_nil _ hmember
  have hlost := hcontains.edges edge hedge
  rw [hedges slice hslice] at hlost
  exact absurd hlost List.not_mem_nil

end Rationale.Engine
