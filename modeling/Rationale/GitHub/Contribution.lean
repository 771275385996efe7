import Rationale.GitHub.Normalize

namespace Rationale.GitHub

open Std Rationale.Library

/-!
# The shape of a GitHub contribution

Whatever GitHub answers, its contribution is closed, keyed and of GitHub's own kind.

* `contributedIds`, `mem_buildEvidence_ids` — the identifiers of its records;
* `Built` — what the loop of `build_evidence` keeps: an edge's target may still be an issue that a
  later turn adds;
* `wellFormed_buildEvidence` — at the end every edge has both ends among the records.
-/

/-- A contribution as `build_evidence` returns it. -/
structure WellFormed (contribution : Contribution) : Prop where
  records_github : ∀ record ∈ contribution.records, record.origin.sourceKind = .github
  edges_github : ∀ edge ∈ contribution.edges, edge.origin.sourceKind = .github
  closed : ∀ edge ∈ contribution.edges, (∃ record ∈ contribution.records, record.id = edge.sourceId) ∧
    ∃ record ∈ contribution.records, record.id = edge.targetId
  edges_unique : ∀ left ∈ contribution.edges, ∀ right ∈ contribution.edges,
    left.id = right.id → left = right

/-! ### Identifiers -/

/-- The identifiers that one item contributes: its own, and those of a pull request's commits. -/
def itemIds (commits : Nat → List ApiCommit) (item : ApiItem) : List String :=
  itemId item :: if item.isPull then (commits item.number).map (·.sha) else []

/-- The identifiers of all records of a contribution. -/
def contributedIds (items : List ApiItem) (commits : Nat → List ApiCommit) : List String :=
  items.flatMap (itemIds commits)

section Identifiers

variable {hash : String → String} {repository : GitHubRepository} {issueNumbers : List Nat}
  {commits : Nat → List ApiCommit} {state : BuildState} {pull k : String} {origin : Origin}

theorem mem_records_commits {pullCommits : List ApiCommit} :
    k ∈ (pullCommits.foldl (buildCommit hash pull origin) state).records ↔
      k ∈ state.records ∨ k ∈ pullCommits.map (·.sha) := by
  induction pullCommits generalizing state with
  | nil => simp
  | cons commit pullCommits ih =>
    have hone : k ∈ (buildCommit hash pull origin state commit).records ↔
        commit.sha = k ∨ k ∈ state.records := by
      show k ∈ state.records.insertIfNew commit.sha _ ↔ _
      rw [ExtTreeMap.mem_insertIfNew, Std.compare_eq_iff_eq]
    rw [List.foldl_cons, ih, hone, List.map_cons, List.mem_cons, eq_comm]
    tauto

/-- Edges add no records. -/
theorem records_closes {closed : List Nat} :
    (closed.foldl (fun state number =>
      state.addEdge (edge hash .resolvesIssue pull (issueId number) origin)) state).records =
        state.records := by
  induction closed generalizing state with
  | nil => rfl
  | cons number closed ih => exact ih

theorem mem_records_item {item : ApiItem} :
    k ∈ (buildItem hash repository issueNumbers commits state item).records ↔
      k ∈ state.records ∨ k ∈ itemIds commits item := by
  have hinsert : k ∈ state.records.insert (itemId item) (itemNode item) ↔
      itemId item = k ∨ k ∈ state.records := by
    rw [ExtTreeMap.mem_insert, Std.compare_eq_iff_eq]
  unfold buildItem itemIds
  by_cases hpull : item.isPull
  · rw [if_neg (by simp [hpull]), if_pos hpull]
    unfold buildPull
    rw [mem_records_commits, records_closes, hinsert, List.mem_cons, eq_comm]
    tauto
  · rw [if_pos (by simp [hpull]), if_neg hpull, List.mem_singleton, hinsert, eq_comm]
    tauto

theorem mem_records_items {items : List ApiItem} :
    k ∈ (items.foldl (buildItem hash repository issueNumbers commits) state).records ↔
      k ∈ state.records ∨ k ∈ contributedIds items commits := by
  induction items generalizing state with
  | nil => simp [contributedIds]
  | cons item items ih =>
    rw [List.foldl_cons, ih, mem_records_item, or_assoc]
    unfold contributedIds
    rw [List.flatMap_cons, List.mem_append]

end Identifiers

/-! ### The loop -/

/-- The invariant of the loop. -/
structure Built (issueNumbers : List Nat) (state : BuildState) : Prop where
  records_keyed : KeyedBy EvidenceNode.id state.records
  edges_keyed : KeyedBy EvidenceEdge.id state.edges
  records_github : ∀ (k : String) record, state.records[k]? = some record →
    record.origin.sourceKind = .github
  edges_github : ∀ (k : String) edge, state.edges[k]? = some edge → edge.origin.sourceKind = .github
  source : ∀ (k : String) edge, state.edges[k]? = some edge → edge.sourceId ∈ state.records
  target : ∀ (k : String) edge, state.edges[k]? = some edge →
    edge.targetId ∈ state.records ∨ ∃ number ∈ issueNumbers, edge.targetId = issueId number

section Loop

variable {hash : String → String} {repository : GitHubRepository} {issueNumbers : List Nat}
  {state : BuildState}

theorem built_empty : Built issueNumbers ⟨∅, ∅⟩ := by
  refine ⟨keyedBy_empty, keyedBy_empty, ?_, ?_, ?_, ?_⟩ <;> intro k a h <;> simp at h

/-- Another record: under a new identifier, or over the one it replaces. -/
theorem Built.withRecords (h : Built issueNumbers state) {records : StringMap EvidenceNode}
    {node : EvidenceNode} (hgithub : node.origin.sourceKind = .github)
    (hget : ∀ (k : String) record, records[k]? = some record →
      k = node.id ∧ record = node ∨ state.records[k]? = some record)
    (hmem : ∀ k ∈ state.records, k ∈ records) :
    Built issueNumbers { state with records } where
  records_keyed k record hrecord := by
    rcases hget k record hrecord with ⟨rfl, rfl⟩ | hold
    · rfl
    · exact h.records_keyed k record hold
  edges_keyed := h.edges_keyed
  records_github k record hrecord := by
    rcases hget k record hrecord with ⟨-, rfl⟩ | hold
    · exact hgithub
    · exact h.records_github k record hold
  edges_github := h.edges_github
  source k edge hedge := hmem _ (h.source k edge hedge)
  target k edge hedge := (h.target k edge hedge).imp_left (hmem _)

/-- Another edge, between a record and a record or issue. -/
theorem Built.addEdge (h : Built issueNumbers state) {edge : EvidenceEdge}
    (hgithub : edge.origin.sourceKind = .github) (hsource : edge.sourceId ∈ state.records)
    (htarget : edge.targetId ∈ state.records ∨
      ∃ number ∈ issueNumbers, edge.targetId = issueId number) :
    Built issueNumbers (state.addEdge edge) := by
  have hget : ∀ (k : String) other, (state.addEdge edge).edges[k]? = some other →
      k = edge.id ∧ other = edge ∨ state.edges[k]? = some other := by
    intro k other hother
    have hother' : (state.edges.insert edge.id edge)[k]? = some other := hother
    rw [ExtTreeMap.getElem?_insert] at hother'
    by_cases hk : compare edge.id k = .eq
    · rw [if_pos hk] at hother'
      exact Or.inl ⟨(Std.compare_eq_iff_eq.mp hk).symm, (Option.some.inj hother').symm⟩
    · rw [if_neg hk] at hother'
      exact Or.inr hother'
  refine ⟨h.records_keyed, fun k other hother => ?_, h.records_github, fun k other hother => ?_,
    fun k other hother => ?_, fun k other hother => ?_⟩
  all_goals rcases hget k other hother with ⟨rfl, rfl⟩ | hold
  · rfl
  · exact h.edges_keyed k other hold
  · exact hgithub
  · exact h.edges_github k other hold
  · exact hsource
  · exact h.source k other hold
  · exact htarget
  · exact h.target k other hold

/-- A record inserted over an existing one. -/
theorem Built.insertRecord (h : Built issueNumbers state) (node : EvidenceNode)
    (hgithub : node.origin.sourceKind = .github) :
    Built issueNumbers { state with records := state.records.insert node.id node } := by
  refine h.withRecords hgithub (fun k record hrecord => ?_) (fun k hk => ?_)
  · rw [ExtTreeMap.getElem?_insert] at hrecord
    by_cases heq : compare node.id k = .eq
    · rw [if_pos heq] at hrecord
      exact Or.inl ⟨(Std.compare_eq_iff_eq.mp heq).symm, (Option.some.inj hrecord).symm⟩
    · rw [if_neg heq] at hrecord
      exact Or.inr hrecord
  · exact ExtTreeMap.mem_insert.mpr (Or.inr hk)

/-- A record inserted unless there is one. -/
theorem Built.insertIfNew (h : Built issueNumbers state) (node : EvidenceNode)
    (hgithub : node.origin.sourceKind = .github) :
    Built issueNumbers { state with records := state.records.insertIfNew node.id node } := by
  refine h.withRecords hgithub (fun k record hrecord => ?_) (fun k hk => ?_)
  · rw [ExtTreeMap.getElem?_insertIfNew] at hrecord
    split at hrecord
    · next heq =>
      exact Or.inl ⟨(Std.compare_eq_iff_eq.mp heq.1).symm, (Option.some.inj hrecord).symm⟩
    · exact Or.inr hrecord
  · exact ExtTreeMap.mem_insertIfNew.mpr (Or.inr hk)

/-- The commits of a pull request. -/
theorem Built.commits (h : Built issueNumbers state) {pull : String} {origin : Origin}
    (hgithub : origin.sourceKind = .github) (hpull : pull ∈ state.records)
    (commits : List ApiCommit) :
    Built issueNumbers (commits.foldl (buildCommit hash pull origin) state) := by
  induction commits generalizing state with
  | nil => exact h
  | cons commit commits ih =>
    let node : EvidenceNode :=
      ⟨commit.sha, .change, .current, none, none, githubOrigin commit.htmlUrl⟩
    have hpull' : pull ∈ state.records.insertIfNew commit.sha node :=
      ExtTreeMap.mem_insertIfNew.mpr (Or.inr hpull)
    have hsha : commit.sha ∈ state.records.insertIfNew commit.sha node :=
      ExtTreeMap.mem_insertIfNew.mpr (Or.inl Std.compare_self)
    have hbuilt : Built issueNumbers (buildCommit hash pull origin state commit) :=
      (h.insertIfNew node rfl).addEdge hgithub hsha (Or.inl hpull')
    exact ih hbuilt hpull'

/-- The issues that a pull request closes. -/
theorem Built.closes (h : Built issueNumbers state) {pull : String} {origin : Origin}
    (hgithub : origin.sourceKind = .github) (hpull : pull ∈ state.records) {closed : List Nat}
    (hclosed : ∀ number ∈ closed, number ∈ issueNumbers) :
    Built issueNumbers (closed.foldl (fun state number =>
      state.addEdge (edge hash .resolvesIssue pull (issueId number) origin)) state) := by
  induction closed generalizing state with
  | nil => exact h
  | cons number closed ih =>
    have hnumber := hclosed number List.mem_cons_self
    have hrest : ∀ n ∈ closed, n ∈ issueNumbers := fun n hn =>
      hclosed n (List.mem_cons_of_mem number hn)
    have hedge : Built issueNumbers
        (state.addEdge (edge hash .resolvesIssue pull (issueId number) origin)) :=
      h.addEdge hgithub hpull (Or.inr ⟨number, hnumber, rfl⟩)
    exact ih hedge hpull hrest

/-- The relationships of a pull request. -/
theorem Built.pull (h : Built issueNumbers state) (commits : Nat → List ApiCommit)
    {item : ApiItem} (hitem : itemId item ∈ state.records) :
    Built issueNumbers (buildPull hash repository issueNumbers commits state item) := by
  have hclosed : ∀ number ∈ (explicitClosingReferences (item.body.getD "") repository).filter
      (issueNumbers.contains ·), number ∈ issueNumbers := by
    intro number hnumber
    simpa using (List.mem_filter.mp hnumber).2
  have hgithub : (githubOrigin item.htmlUrl).sourceKind = .github := rfl
  refine (h.closes hgithub hitem hclosed).commits hgithub ?_ (commits item.number)
  rw [records_closes]
  exact hitem

/-- One turn of the loop. -/
theorem Built.item (h : Built issueNumbers state) (commits : Nat → List ApiCommit)
    (item : ApiItem) : Built issueNumbers (buildItem hash repository issueNumbers commits state item) := by
  have hrecord : Built issueNumbers
      { state with records := state.records.insert (itemId item) (itemNode item) } :=
    h.insertRecord (itemNode item) rfl
  have hid : itemId item ∈ state.records.insert (itemId item) (itemNode item) :=
    ExtTreeMap.mem_insert.mpr (Or.inl Std.compare_self)
  unfold buildItem
  split
  · exact hrecord
  · exact hrecord.pull commits hid

/-- The whole loop. -/
theorem Built.items (h : Built issueNumbers state) (commits : Nat → List ApiCommit)
    (items : List ApiItem) :
    Built issueNumbers (items.foldl (buildItem hash repository issueNumbers commits) state) := by
  induction items generalizing state with
  | nil => exact h
  | cons item items ih => exact ih (h.item commits item)

end Loop

/-- **The identifiers of a contribution.** -/
theorem mem_buildEvidence_ids {hash : String → String} {repository : GitHubRepository}
    {items : List ApiItem} {commits : Nat → List ApiCommit} {k : String} :
    (∃ record ∈ (buildEvidence hash repository items commits).records, record.id = k) ↔
      k ∈ contributedIds items commits := by
  let issueNumbers := (items.filter (fun item => !item.isPull)).map (·.number)
  have hbuilt := @Built.items hash repository issueNumbers _ built_empty commits items
  refine hbuilt.records_keyed.mem_iff.symm.trans ?_
  rw [mem_records_items]
  simp

/-- **Every contribution is well formed.** -/
theorem wellFormed_buildEvidence (hash : String → String) (repository : GitHubRepository)
    (items : List ApiItem) (commits : Nat → List ApiCommit) :
    WellFormed (buildEvidence hash repository items commits) := by
  let issueNumbers := (items.filter (fun item => !item.isPull)).map (·.number)
  let state := items.foldl (buildItem hash repository issueNumbers commits) ⟨∅, ∅⟩
  have hbuilt : Built issueNumbers state := built_empty.items commits items
  -- by the end every issue has its record
  have hissue : ∀ number ∈ issueNumbers, issueId number ∈ state.records := by
    intro number hnumber
    obtain ⟨item, hitem, rfl⟩ := List.mem_map.mp hnumber
    obtain ⟨hmem, hissue⟩ := List.mem_filter.mp hitem
    have hid : itemId item = issueId item.number := by
      unfold itemId
      rw [if_neg (by simpa using hissue)]
    rw [← hid]
    exact mem_records_items.mpr (Or.inr (List.mem_flatMap.mpr ⟨item, hmem, List.mem_cons_self⟩))
  have htarget : ∀ (k : String) edge, state.edges[k]? = some edge →
      edge.targetId ∈ state.records := by
    intro k edge hedge
    rcases hbuilt.target k edge hedge with hmem | ⟨number, hnumber, heq⟩
    · exact hmem
    · rw [heq]
      exact hissue number hnumber
  constructor
  case records_github =>
    intro record hrecord
    obtain ⟨k, hk⟩ := mem_values.mp hrecord
    exact hbuilt.records_github k record hk
  case edges_github =>
    intro edge hedge
    obtain ⟨k, hk⟩ := mem_values.mp hedge
    exact hbuilt.edges_github k edge hk
  case closed =>
    intro edge hedge
    obtain ⟨k, hk⟩ := mem_values.mp hedge
    exact ⟨hbuilt.records_keyed.mem_iff.mp (hbuilt.source k edge hk),
      hbuilt.records_keyed.mem_iff.mp (htarget k edge hk)⟩
  case edges_unique =>
    intro left hleft right hright hid
    have hl := hbuilt.edges_keyed.mem_values_iff.mp hleft
    have hr := hbuilt.edges_keyed.mem_values_iff.mp hright
    rw [hid, hr] at hl
    exact (Option.some.inj hl).symm

end Rationale.GitHub
