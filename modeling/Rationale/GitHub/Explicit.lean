import Rationale.GitHub.Contribution

namespace Rationale.GitHub

open Std Rationale.Library

/-!
# The explicit relationships of a GitHub contribution

What `build_evidence` writes, without its loop.

* `itemRecords`, `itemEdges` — what one item contributes;
* `edges_buildEvidence`, `mem_records_buildEvidence` — the loop collects the contributions of all items;
* `ExplicitOnly` — one record for each item and commit, and the relationships that GitHub states;
* `buildEvidence_explicit` — these and no others, in an order that does not depend on the input's.
-/

/-! ### Contributions of one item -/

section Items

variable (hash : String → String) (repository : GitHubRepository) (issueNumbers : List Nat)
  (commits : Nat → List ApiCommit)

def commitNode (commit : ApiCommit) : EvidenceNode :=
  ⟨commit.sha, .change, .current, none, none, githubOrigin commit.htmlUrl⟩

/-- The record of an item, and those of a pull request's commits. -/
def itemRecords (item : ApiItem) : List EvidenceNode :=
  itemNode item :: if item.isPull then (commits item.number).map commitNode else []

/-- The issues of the repository that a pull request closes. -/
def closedIssues (item : ApiItem) : List Nat :=
  (explicitClosingReferences (item.body.getD "") repository).filter (issueNumbers.contains ·)

/-- The relationships of an item: to the issues it closes, and from its commits. -/
def itemEdges (item : ApiItem) : List EvidenceEdge :=
  if item.isPull then
    (closedIssues repository issueNumbers item).map (fun number =>
      edge hash .resolvesIssue (itemId item) (issueId number) (githubOrigin item.htmlUrl)) ++
    (commits item.number).map (fun commit =>
      edge hash .includedInPr commit.sha (itemId item) (githubOrigin item.htmlUrl))
  else []

/-- The numbers of the issues among the items. -/
def issueNumbersOf (items : List ApiItem) : List Nat :=
  (items.filter (fun item => !item.isPull)).map (·.number)

/-- The commits that are listed for some pull request. -/
def listedCommits (items : List ApiItem) : List ApiCommit :=
  (items.filter (·.isPull)).flatMap (fun item => commits item.number)

end Items

section Collected

variable {hash : String → String} {repository : GitHubRepository} {issueNumbers : List Nat}
  {commits : Nat → List ApiCommit} {state : BuildState} {item : ApiItem} {items : List ApiItem}
  {k : String} {record : EvidenceNode}

theorem edges_closes {pull : String} {origin : Origin} {closed : List Nat} :
    (closed.foldl (fun state number =>
      state.addEdge (edge hash .resolvesIssue pull (issueId number) origin)) state).edges =
      insertAll EvidenceEdge.id state.edges
        (closed.map fun number => edge hash .resolvesIssue pull (issueId number) origin) := by
  induction closed generalizing state with
  | nil => rfl
  | cons number closed ih => exact ih

theorem edges_commits {pull : String} {origin : Origin} {pullCommits : List ApiCommit} :
    (pullCommits.foldl (buildCommit hash pull origin) state).edges =
      insertAll EvidenceEdge.id state.edges
        (pullCommits.map fun commit => edge hash .includedInPr commit.sha pull origin) := by
  induction pullCommits generalizing state with
  | nil => rfl
  | cons commit pullCommits ih => exact ih

theorem edges_item : (buildItem hash repository issueNumbers commits state item).edges =
    insertAll EvidenceEdge.id state.edges
      (itemEdges hash repository issueNumbers commits item) := by
  unfold buildItem itemEdges
  by_cases hpull : item.isPull
  · rw [if_neg (by simp [hpull]), if_pos hpull, insertAll_append]
    unfold buildPull
    rw [edges_commits, edges_closes]
    rfl
  · rw [if_pos (by simp [hpull]), if_neg hpull]
    rfl

theorem edges_items : (items.foldl (buildItem hash repository issueNumbers commits) state).edges =
    insertAll EvidenceEdge.id state.edges
      (items.flatMap (itemEdges hash repository issueNumbers commits)) := by
  induction items generalizing state with
  | nil => rfl
  | cons item items ih =>
    rw [List.foldl_cons, ih, edges_item, List.flatMap_cons, insertAll_append]

/-- The edges of a contribution are those of its items. -/
theorem edges_buildEvidence : (buildEvidence hash repository items commits).edges =
    values (indexBy EvidenceEdge.id (items.flatMap
      (itemEdges hash repository (issueNumbersOf items) commits)) : StringMap EvidenceEdge) := by
  show values (items.foldl (buildItem hash repository (issueNumbersOf items) commits) ⟨∅, ∅⟩).edges = _
  rw [edges_items]
  rfl

theorem getElem?_records_commits {pull : String} {origin : Origin} {pullCommits : List ApiCommit}
    (h : (pullCommits.foldl (buildCommit hash pull origin) state).records[k]? = some record) :
    state.records[k]? = some record ∨ record ∈ pullCommits.map commitNode := by
  induction pullCommits generalizing state with
  | nil => exact Or.inl h
  | cons commit pullCommits ih =>
    rw [List.map_cons, List.mem_cons]
    rcases ih h with hone | hrest
    · have hinsert : (state.records.insertIfNew commit.sha (commitNode commit))[k]? = some record :=
        hone
      rw [ExtTreeMap.getElem?_insertIfNew] at hinsert
      split at hinsert
      · exact Or.inr (Or.inl (Option.some.inj hinsert).symm)
      · exact Or.inl hinsert
    · exact Or.inr (Or.inr hrest)

theorem getElem?_records_item
    (h : (buildItem hash repository issueNumbers commits state item).records[k]? = some record) :
    state.records[k]? = some record ∨ record ∈ itemRecords commits item := by
  have hinsert : (state.records.insert (itemId item) (itemNode item))[k]? = some record →
      state.records[k]? = some record ∨ record = itemNode item := by
    intro hget
    rw [ExtTreeMap.getElem?_insert] at hget
    split at hget
    · exact Or.inr (Option.some.inj hget).symm
    · exact Or.inl hget
  unfold buildItem at h
  unfold itemRecords
  rw [List.mem_cons]
  by_cases hpull : item.isPull
  · rw [if_neg (by simp [hpull])] at h
    rw [if_pos hpull]
    unfold buildPull at h
    rcases getElem?_records_commits h with hget | hcommit
    · rw [records_closes] at hget
      exact (hinsert hget).imp_right Or.inl
    · exact Or.inr (Or.inr hcommit)
  · rw [if_pos (by simp [hpull])] at h
    exact (hinsert h).imp_right Or.inl

theorem getElem?_records_items
    (h : (items.foldl (buildItem hash repository issueNumbers commits) state).records[k]? =
      some record) :
    state.records[k]? = some record ∨ record ∈ items.flatMap (itemRecords commits) := by
  induction items generalizing state with
  | nil => exact Or.inl h
  | cons item items ih =>
    rw [List.flatMap_cons, List.mem_append]
    rcases ih h with hone | hrest
    · exact (getElem?_records_item hone).imp_right Or.inl
    · exact Or.inr (Or.inr hrest)

end Collected

/-! ### Identifiers -/

section Identifiers

/-- A text of hexadecimal digits. -/
def Hexadecimal (text : String) : Prop :=
  ∀ c ∈ text.toList, c ∈ "0123456789abcdefABCDEF".toList

instance (text : String) : Decidable (Hexadecimal text) :=
  List.decidableBAll (fun c => c ∈ "0123456789abcdefABCDEF".toList) text.toList

theorem toList_issueId (number : Nat) : (issueId number).toList = '#' :: Nat.toDigits 10 number := by
  simp [issueId, Nat.toList_repr]

theorem toList_pullId (number : Nat) :
    (pullId number).toList = 'P' :: 'R' :: '-' :: Nat.toDigits 10 number := by
  simp [pullId, Nat.toList_repr]

theorem toDigits_injective {number number' : Nat}
    (h : Nat.toDigits 10 number = Nat.toDigits 10 number') : number = number' := by
  rw [← @Nat.ofDigitChars_ten_toDigits number, h, Nat.ofDigitChars_ten_toDigits]

theorem issueId_injective {number number' : Nat} (h : issueId number = issueId number') :
    number = number' := by
  have hlist := congrArg String.toList h
  rw [toList_issueId, toList_issueId] at hlist
  exact toDigits_injective (List.cons.inj hlist).2

theorem pullId_injective {number number' : Nat} (h : pullId number = pullId number') :
    number = number' := by
  have hlist := congrArg String.toList h
  rw [toList_pullId, toList_pullId] at hlist
  exact toDigits_injective (by simpa using hlist)

theorem issueId_ne_pullId (number number' : Nat) : issueId number ≠ pullId number' := by
  intro h
  have hlist := congrArg String.toList h
  rw [toList_issueId, toList_pullId] at hlist
  exact absurd (List.cons.inj hlist).1 (by decide)

/-- Commits and items have no identifier in common. -/
theorem Hexadecimal.ne_itemId {sha : String} (h : Hexadecimal sha) (item : ApiItem) :
    sha ≠ itemId item := by
  rintro rfl
  unfold itemId Hexadecimal at h
  split at h
  · rw [toList_pullId] at h
    exact absurd (h 'P' List.mem_cons_self) (by decide)
  · rw [toList_issueId] at h
    exact absurd (h '#' List.mem_cons_self) (by decide)

theorem Hexadecimal.nul_notMem {sha : String} (h : Hexadecimal sha) : '\x00' ∉ sha.toList :=
  fun hmem => absurd (h _ hmem) (by decide)

theorem nul_notMem_toDigits (number : Nat) : '\x00' ∉ Nat.toDigits 10 number := by
  intro hmem
  exact absurd (Nat.isDigit_of_mem_toDigits (by decide) (by decide) hmem) (by decide)

theorem nul_notMem_pullId (number : Nat) : '\x00' ∉ (pullId number).toList := by
  rw [toList_pullId]
  simp [nul_notMem_toDigits]

theorem nul_notMem_issueId (number : Nat) : '\x00' ∉ (issueId number).toList := by
  rw [toList_issueId]
  simp [nul_notMem_toDigits]

/-- Items with distinct numbers have distinct identifiers. -/
theorem eq_of_itemId_eq {items : List ApiItem} (hnumbers : (items.map (·.number)).Nodup)
    {item item' : ApiItem} (hitem : item ∈ items) (hitem' : item' ∈ items)
    (h : itemId item = itemId item') : item = item' := by
  have hnumber : item.number = item'.number := by
    unfold itemId at h
    split at h
    · split at h
      · exact pullId_injective h
      · exact absurd h.symm (issueId_ne_pullId _ _)
    · split at h
      · exact absurd h (issueId_ne_pullId _ _)
      · exact issueId_injective h
  exact List.inj_on_of_nodup_map hnumbers hitem hitem' hnumber

end Identifiers

/-! ### What GitHub states -/

section Stated

variable (hash : String → String) (repository : GitHubRepository) (items : List ApiItem)
  (commits : Nat → List ApiCommit)

/-- The relationships that the items state. -/
def statedEdges : List EvidenceEdge :=
  items.flatMap (itemEdges hash repository (issueNumbersOf items) commits)

/-- The text that the identifier of a relationship is hashed from. -/
def hashedText (e : EvidenceEdge) : String :=
  edgeMaterial e.kind e.sourceId e.targetId e.origin.locator

/-- The hash tells the texts of the relationships apart. -/
def CollisionFree : Prop :=
  ∀ e ∈ statedEdges hash repository items commits, ∀ e' ∈ statedEdges hash repository items commits,
    hash (hashedText e) = hash (hashedText e') → hashedText e = hashedText e'

instance : Decidable (CollisionFree hash repository items commits) :=
  inferInstanceAs (Decidable (∀ e ∈ _, ∀ e' ∈ _, _ → _))

/-- One record for each item and each listed commit, and the relationships that GitHub states. -/
structure ExplicitOnly (contribution : Contribution) : Prop where
  mem_records : ∀ record, record ∈ contribution.records ↔
    (∃ item ∈ items, record = itemNode item) ∨
      ∃ commit ∈ listedCommits commits items, record = commitNode commit
  records_sorted : contribution.records.Pairwise (fun a b => compare a.id b.id = .lt)
  included : ∀ sha number,
    (∃ e ∈ contribution.edges, e.kind = .includedInPr ∧ e.sourceId = sha ∧
      e.targetId = pullId number) ↔
    ∃ item ∈ items, item.isPull = true ∧ item.number = number ∧
      ∃ commit ∈ commits number, commit.sha = sha
  resolves : ∀ number issue,
    (∃ e ∈ contribution.edges, e.kind = .resolvesIssue ∧ e.sourceId = pullId number ∧
      e.targetId = issueId issue) ↔
    ∃ item ∈ items, item.isPull = true ∧ item.number = number ∧
      issue ∈ explicitClosingReferences (item.body.getD "") repository ∧
      ∃ other ∈ items, other.isPull = false ∧ other.number = issue
  no_others : ∀ e ∈ contribution.edges,
    e.kind = .includedInPr ∧ (∃ number, e.targetId = pullId number) ∨
    e.kind = .resolvesIssue ∧ ∃ number issue, e.sourceId = pullId number ∧ e.targetId = issueId issue
  edges_unique : ∀ e ∈ contribution.edges, ∀ e' ∈ contribution.edges, e.kind = e'.kind →
    e.sourceId = e'.sourceId → e.targetId = e'.targetId → e = e'
  edges_sorted : contribution.edges.Pairwise (fun a b => compare a.id b.id = .lt)
  closed : ∀ e ∈ contribution.edges, (∃ record ∈ contribution.records, record.id = e.sourceId) ∧
    ∃ record ∈ contribution.records, record.id = e.targetId

variable {hash repository items commits} {e e' : EvidenceEdge}

theorem mem_listedCommits {commit : ApiCommit} : commit ∈ listedCommits commits items ↔
    ∃ item ∈ items, item.isPull = true ∧ commit ∈ commits item.number := by
  simp [listedCommits, and_assoc]

theorem mem_closedIssues {item : ApiItem} {number : Nat} :
    number ∈ closedIssues repository (issueNumbersOf items) item ↔
      number ∈ explicitClosingReferences (item.body.getD "") repository ∧
      ∃ other ∈ items, other.isPull = false ∧ other.number = number := by
  simp [closedIssues, issueNumbersOf, and_assoc]

/-- Every stated relationship is that of a commit or of a closed issue. -/
theorem mem_statedEdges : e ∈ statedEdges hash repository items commits ↔
    ∃ item ∈ items, item.isPull = true ∧
      ((∃ number ∈ closedIssues repository (issueNumbersOf items) item, e =
          edge hash .resolvesIssue (pullId item.number) (issueId number) (githubOrigin item.htmlUrl)) ∨
        ∃ commit ∈ commits item.number, e =
          edge hash .includedInPr commit.sha (pullId item.number) (githubOrigin item.htmlUrl)) := by
  unfold statedEdges
  rw [List.mem_flatMap]
  refine exists_congr (fun item => and_congr_right (fun _ => ?_))
  unfold itemEdges
  by_cases hpull : item.isPull
  · have hid : itemId item = pullId item.number := if_pos hpull
    rw [if_pos hpull, and_iff_right hpull, hid]
    simp only [List.mem_append, List.mem_map, eq_comm (a := e)]
  · rw [if_neg hpull]
    simp [hpull]

end Stated

/-! ### The contribution -/

/-- What the API promises: items are told apart by their numbers, commits by their hashes. -/
structure ApiData (items : List ApiItem) (commits : Nat → List ApiCommit) : Prop where
  numbers : (items.map (·.number)).Nodup
  hexadecimal : ∀ commit ∈ listedCommits commits items, Hexadecimal commit.sha
  urls : ∀ commit ∈ listedCommits commits items, ∀ commit' ∈ listedCommits commits items,
    commit.sha = commit'.sha → commit.htmlUrl = commit'.htmlUrl

section Explicit

variable {hash : String → String} {repository : GitHubRepository} {items items' : List ApiItem}
  {commits commits' : Nat → List ApiCommit} {e e' : EvidenceEdge} {record record' : EvidenceNode}

/-- A stated relationship is made from its parts, which are free of the separator. -/
theorem ApiData.stated (h : ApiData items commits) (he : e ∈ statedEdges hash repository items commits) :
    e = edge hash e.kind e.sourceId e.targetId (githubOrigin e.origin.locator) ∧
      '\x00' ∉ e.sourceId.toList ∧ '\x00' ∉ e.targetId.toList := by
  obtain ⟨item, hitem, hpull, ⟨number, -, rfl⟩ | ⟨commit, hcommit, rfl⟩⟩ := mem_statedEdges.mp he
  · exact ⟨rfl, nul_notMem_pullId item.number, nul_notMem_issueId number⟩
  · have hlisted := mem_listedCommits.mpr ⟨item, hitem, hpull, hcommit⟩
    exact ⟨rfl, (h.hexadecimal commit hlisted).nul_notMem, nul_notMem_pullId item.number⟩

/-- Stated relationships have their identifiers for themselves. -/
theorem ApiData.eq_of_edge_id (h : ApiData items commits)
    (hhash : CollisionFree hash repository items commits)
    (he : e ∈ statedEdges hash repository items commits)
    (he' : e' ∈ statedEdges hash repository items commits) (hid : e.id = e'.id) : e = e' := by
  obtain ⟨hform, hsource, htarget⟩ := h.stated he
  obtain ⟨hform', hsource', htarget'⟩ := h.stated he'
  have hdigest : hash (hashedText e) = hash (hashedText e') := by
    rw [hform, hform'] at hid
    exact (String.append_right_inj "edge:").mp hid
  have htext := hhash e he e' he' hdigest
  obtain ⟨hkind, hsourceId, htargetId, hlocator⟩ :=
    edgeMaterial_inj hsource hsource' htarget htarget' htext
  rw [hform, hform', hkind, hsourceId, htargetId, hlocator]

/-- **The edges** of a contribution are the stated relationships. -/
theorem ApiData.mem_edges (h : ApiData items commits)
    (hhash : CollisionFree hash repository items commits) :
    e ∈ (buildEvidence hash repository items commits).edges ↔
      e ∈ statedEdges hash repository items commits := by
  rw [edges_buildEvidence]
  exact mem_values_indexBy (fun e he e' he' => h.eq_of_edge_id hhash he he')

theorem mem_itemRecords : record ∈ items.flatMap (itemRecords commits) ↔
    (∃ item ∈ items, record = itemNode item) ∨
      ∃ commit ∈ listedCommits commits items, record = commitNode commit := by
  unfold itemRecords
  simp only [List.mem_flatMap, List.mem_cons, mem_listedCommits]
  constructor
  · rintro ⟨item, hitem, rfl | hrecord⟩
    · exact Or.inl ⟨item, hitem, rfl⟩
    · split at hrecord
      · next hpull =>
        obtain ⟨commit, hcommit, rfl⟩ := List.mem_map.mp hrecord
        exact Or.inr ⟨commit, ⟨item, hitem, hpull, hcommit⟩, rfl⟩
      · exact absurd hrecord List.not_mem_nil
  · rintro (⟨item, hitem, rfl⟩ | ⟨commit, ⟨item, hitem, hpull, hcommit⟩, rfl⟩)
    · exact ⟨item, hitem, Or.inl rfl⟩
    · refine ⟨item, hitem, Or.inr ?_⟩
      rw [if_pos hpull]
      exact List.mem_map_of_mem hcommit

/-- Items and commits have their identifiers for themselves. -/
theorem ApiData.eq_of_record_id (h : ApiData items commits)
    (hrecord : record ∈ items.flatMap (itemRecords commits))
    (hrecord' : record' ∈ items.flatMap (itemRecords commits)) (hid : record.id = record'.id) :
    record = record' := by
  rw [mem_itemRecords] at hrecord hrecord'
  rcases hrecord with ⟨item, hitem, rfl⟩ | ⟨commit, hcommit, rfl⟩
  · rcases hrecord' with ⟨item', hitem', rfl⟩ | ⟨commit', hcommit', rfl⟩
    · rw [eq_of_itemId_eq h.numbers hitem hitem' hid]
    · exact absurd hid.symm ((h.hexadecimal commit' hcommit').ne_itemId item)
  · rcases hrecord' with ⟨item', hitem', rfl⟩ | ⟨commit', hcommit', rfl⟩
    · exact absurd hid ((h.hexadecimal commit hcommit).ne_itemId item')
    · have hsha : commit.sha = commit'.sha := hid
      unfold commitNode
      rw [hsha, h.urls commit hcommit commit' hcommit' hsha]

theorem map_id_itemRecords :
    (items.flatMap (itemRecords commits)).map (·.id) = contributedIds items commits := by
  unfold contributedIds
  rw [List.map_flatMap]
  refine List.flatMap_congr (fun item _ => ?_)
  unfold itemRecords itemIds
  by_cases hpull : item.isPull
  · rw [if_pos hpull, if_pos hpull, List.map_cons, List.map_map]
    rfl
  · rw [if_neg hpull, if_neg hpull]
    rfl

/-- **The records** of a contribution are those of its items and commits. -/
theorem ApiData.mem_records (h : ApiData items commits) :
    record ∈ (buildEvidence hash repository items commits).records ↔
      record ∈ items.flatMap (itemRecords commits) := by
  have hfrom : ∀ record ∈ (buildEvidence hash repository items commits).records,
      record ∈ items.flatMap (itemRecords commits) := by
    intro record hrecord
    obtain ⟨k, hk⟩ := mem_values.mp hrecord
    rcases getElem?_records_items hk with hnone | hmem
    · simp at hnone
    · exact hmem
  refine ⟨hfrom record, fun hrecord => ?_⟩
  have hid : record.id ∈ contributedIds items commits := by
    rw [← map_id_itemRecords]
    exact List.mem_map_of_mem hrecord
  obtain ⟨stored, hstored, hsame⟩ := mem_buildEvidence_ids.mpr hid
  rwa [← h.eq_of_record_id (hfrom stored hstored) hrecord hsame]

theorem edges_pairwise : (buildEvidence hash repository items commits).edges.Pairwise
    (fun a b => compare a.id b.id = .lt) := by
  rw [edges_buildEvidence]
  exact keyedBy_indexBy.values_pairwise

theorem records_pairwise : (buildEvidence hash repository items commits).records.Pairwise
    (fun a b => compare a.id b.id = .lt) :=
  (built_empty.items commits items).records_keyed.values_pairwise

/-- **Explicit relationships only.** -/
theorem ApiData.explicitOnly (h : ApiData items commits)
    (hhash : CollisionFree hash repository items commits) :
    ExplicitOnly repository items commits (buildEvidence hash repository items commits) := by
  constructor
  case mem_records =>
    intro record
    rw [h.mem_records, mem_itemRecords]
  case records_sorted => exact records_pairwise
  case edges_sorted => exact edges_pairwise
  case closed => exact (wellFormed_buildEvidence hash repository items commits).closed
  all_goals simp only [h.mem_edges hhash, mem_statedEdges]
  case included =>
    intro sha number
    constructor
    · rintro ⟨e, ⟨item, hitem, hpull, ⟨closed, -, rfl⟩ | ⟨commit, hcommit, rfl⟩⟩, hkind, hsource,
        htarget⟩
      · exact nomatch hkind
      · obtain rfl := pullId_injective htarget
        exact ⟨item, hitem, hpull, rfl, commit, hcommit, hsource⟩
    · rintro ⟨item, hitem, hpull, rfl, commit, hcommit, rfl⟩
      exact ⟨_, ⟨item, hitem, hpull, Or.inr ⟨commit, hcommit, rfl⟩⟩, rfl, rfl, rfl⟩
  case resolves =>
    intro number issue
    simp only [mem_closedIssues]
    constructor
    · rintro ⟨e, ⟨item, hitem, hpull, ⟨closed, hclosed, rfl⟩ | ⟨commit, -, rfl⟩⟩, hkind, hsource,
        htarget⟩
      · obtain rfl := pullId_injective hsource
        obtain rfl := issueId_injective htarget
        exact ⟨item, hitem, hpull, rfl, hclosed⟩
      · exact nomatch hkind
    · rintro ⟨item, hitem, hpull, rfl, hclosed⟩
      exact ⟨_, ⟨item, hitem, hpull, Or.inl ⟨issue, hclosed, rfl⟩⟩, rfl, rfl, rfl⟩
  case no_others =>
    rintro e ⟨item, -, -, ⟨issue, -, rfl⟩ | ⟨commit, -, rfl⟩⟩
    · exact Or.inr ⟨rfl, item.number, issue, rfl, rfl⟩
    · exact Or.inl ⟨rfl, item.number, rfl⟩
  case edges_unique =>
    have hsame : ∀ item ∈ items, ∀ item' ∈ items, pullId item.number = pullId item'.number →
        item = item' := by
      intro item hitem item' hitem' hid
      exact List.inj_on_of_nodup_map h.numbers hitem hitem' (pullId_injective hid)
    -- the pull request at one end tells where the relationship is stated
    rintro e ⟨item, hitem, -, ⟨issue, -, rfl⟩ | ⟨commit, -, rfl⟩⟩ e'
      ⟨item', hitem', -, ⟨issue', -, rfl⟩ | ⟨commit', -, rfl⟩⟩ hkind hsource htarget
    · obtain rfl := hsame item hitem item' hitem' hsource
      rw [issueId_injective htarget]
    · exact nomatch hkind
    · exact nomatch hkind
    · obtain rfl := hsame item hitem item' hitem' htarget
      rw [show commit.sha = commit'.sha from hsource]

section Order

variable (hitems : items'.Perm items) (hcommits : ∀ number, (commits' number).Perm (commits number))

include hitems hcommits

theorem mem_listedCommits_perm {commit : ApiCommit} :
    commit ∈ listedCommits commits' items' ↔ commit ∈ listedCommits commits items := by
  simp only [mem_listedCommits, hitems.mem_iff, (hcommits _).mem_iff]

theorem mem_statedEdges_perm : e ∈ statedEdges hash repository items' commits' ↔
    e ∈ statedEdges hash repository items commits := by
  simp only [mem_statedEdges, mem_closedIssues, hitems.mem_iff, (hcommits _).mem_iff]

theorem ApiData.perm (h : ApiData items commits) : ApiData items' commits' where
  numbers := (hitems.map _).nodup_iff.mpr h.numbers
  hexadecimal commit hcommit :=
    h.hexadecimal commit ((mem_listedCommits_perm hitems hcommits).mp hcommit)
  urls commit hcommit commit' hcommit' :=
    h.urls commit ((mem_listedCommits_perm hitems hcommits).mp hcommit) commit'
      ((mem_listedCommits_perm hitems hcommits).mp hcommit')

theorem CollisionFree.perm (h : CollisionFree hash repository items commits) :
    CollisionFree hash repository items' commits' := fun e he e' he' =>
  h e ((mem_statedEdges_perm hitems hcommits).mp he) e'
    ((mem_statedEdges_perm hitems hcommits).mp he')

/-- Any order of the items and of their commits has the same contribution. -/
theorem buildEvidence_perm (h : ApiData items commits)
    (hhash : CollisionFree hash repository items commits) :
    buildEvidence hash repository items' commits' = buildEvidence hash repository items commits := by
  have h' : ApiData items' commits' := h.perm hitems hcommits
  have hhash' : CollisionFree hash repository items' commits' := hhash.perm hitems hcommits
  have hrecords : (buildEvidence hash repository items' commits').records =
      (buildEvidence hash repository items commits).records := by
    refine eq_of_pairwise_key_lt records_pairwise records_pairwise (fun record => ?_)
    simp only [h'.mem_records, h.mem_records, mem_itemRecords, hitems.mem_iff,
      mem_listedCommits_perm hitems hcommits]
  have hedges : (buildEvidence hash repository items' commits').edges =
      (buildEvidence hash repository items commits).edges := by
    refine eq_of_pairwise_key_lt edges_pairwise edges_pairwise (fun e => ?_)
    rw [h'.mem_edges hhash', h.mem_edges hhash, mem_statedEdges_perm hitems hcommits]
  exact congrArg₂ Contribution.mk hrecords hedges

end Order

end Explicit

/-! ### One pull request that closes an issue -/

section Sample

def sampleRepository : GitHubRepository := ⟨"acme", "widget"⟩

def sampleItems : List ApiItem :=
  [⟨2, some "Fixes #1.", "https://github.com/acme/widget/pull/2", true⟩,
    ⟨1, none, "https://github.com/acme/widget/issues/1", false⟩]

def sampleCommits (number : Nat) : List ApiCommit :=
  if number = 2 then
    [⟨"da39a3ee5e6b4b0d3255bfef95601890afd80709",
      "https://github.com/acme/widget/commit/da39a3ee5e6b4b0d3255bfef95601890afd80709"⟩]
  else []

/-- The digests of the two relationships of the sample. -/
def sampleHash (text : String) : String :=
  if text = "ResolvesIssue\x00PR-2\x00#1\x00https://github.com/acme/widget/pull/2" then
    "6d037a776716a113247af0e3aa1c9ac872f2d3c1799b0095d48e4201ff6da310"
  else if text = "IncludedInPr\x00da39a3ee5e6b4b0d3255bfef95601890afd80709\x00PR-2\x00" ++
      "https://github.com/acme/widget/pull/2" then
    "a016c64ce7eebfab8fb0c859ee90cc25b4f2ec050d6b51f85a3ef5f89793670f"
  else ""

end Sample

end Rationale.GitHub
