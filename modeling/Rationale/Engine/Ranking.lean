import Mathlib.Data.Prod.Lex
import Rationale.Engine.Candidate
import Rationale.Library.Ranking

namespace Rationale.Engine

open Std Rationale.Library Rationale.Text

/-!
# What candidate ranking computes

* `Eligible` — the records that may be suggested: neither excluded nor historical, and matching
  the query by identifier, by a token or by a path segment;
* `RanksBefore` — exact matches first, then more shared tokens, more shared segments, a larger
  recency bucket, and the smaller identifier;
* `rankCandidates_ranking` — the result is the first ten of the ranking of the eligible records.

One number stands for four components: each weight exceeds all that the later components can add
up to (`CandidateScoreComponents.Bounded`), so scores compare as the components do.
-/

/-! ### Components -/

/-- The caps of the components. -/
structure CandidateScoreComponents.Bounded (components : CandidateScoreComponents) : Prop where
  tokenOverlap : components.tokenOverlap ≤ 8
  pathSegmentOverlap : components.pathSegmentOverlap ≤ 4
  sourceRecency : components.sourceRecency ≤ 4

/-- The components in the order of their weight. -/
def CandidateScoreComponents.lexKey (components : CandidateScoreComponents) :
    Bool ×ₗ Nat ×ₗ Nat ×ₗ Nat :=
  toLex (components.exactIdentifier, toLex (components.tokenOverlap,
    toLex (components.pathSegmentOverlap, components.sourceRecency)))

namespace CandidateScoreComponents

variable {components other : CandidateScoreComponents}

theorem toNat_lt_toNat_iff (a b : Bool) : a.toNat < b.toNat ↔ a < b := by
  cases a <;> cases b <;> decide

theorem toNat_eq_toNat_iff (a b : Bool) : a.toNat = b.toNat ↔ a = b := by
  cases a <;> cases b <;> decide

theorem scoreV1_eq (components : CandidateScoreComponents) :
    components.scoreV1 = components.exactIdentifier.toNat * 1000
      + (components.tokenOverlap * 100
        + (components.pathSegmentOverlap * 20 + components.sourceRecency)) := by
  have hexact : (if components.exactIdentifier then 1 else 0) = components.exactIdentifier.toNat :=
    by cases components.exactIdentifier <;> rfl
  rw [scoreV1, hexact]
  omega

/-- Scores stay far inside `u32`. -/
theorem Bounded.scoreV1_le (h : components.Bounded) : components.scoreV1 ≤ 1884 := by
  have hexact := Bool.toNat_le components.exactIdentifier
  have htoken := h.tokenOverlap
  have hpath := h.pathSegmentOverlap
  have hrecency := h.sourceRecency
  rw [scoreV1_eq]
  omega

/-- **The score orders bounded components lexicographically.** -/
theorem scoreV1_lt_iff (h : components.Bounded) (h' : other.Bounded) :
    components.scoreV1 < other.scoreV1 ↔ components.lexKey < other.lexKey := by
  obtain ⟨htoken, hpath, hrecency⟩ := h
  obtain ⟨htoken', hpath', hrecency'⟩ := h'
  rw [scoreV1_eq, scoreV1_eq, weighted_lt_iff (by omega) (by omega),
    weighted_lt_iff (by omega) (by omega), weighted_lt_iff (by omega) (by omega), lexKey, lexKey,
    Prod.Lex.toLex_lt_toLex, Prod.Lex.toLex_lt_toLex, Prod.Lex.toLex_lt_toLex, toNat_lt_toNat_iff,
    toNat_eq_toNat_iff]

/-- Equal scores mean equal components. -/
theorem scoreV1_eq_iff (h : components.Bounded) (h' : other.Bounded) :
    components.scoreV1 = other.scoreV1 ↔ components.lexKey = other.lexKey := by
  obtain ⟨htoken, hpath, hrecency⟩ := h
  obtain ⟨htoken', hpath', hrecency'⟩ := h'
  rw [scoreV1_eq, scoreV1_eq, weighted_eq_iff (by omega) (by omega),
    weighted_eq_iff (by omega) (by omega), weighted_eq_iff (by omega) (by omega), toNat_eq_toNat_iff]
  simp only [lexKey, EmbeddingLike.apply_eq_iff_eq, Prod.mk.injEq]

end CandidateScoreComponents

/-! ### Shared words -/

/-- The two sets have a word in common. -/
def Shares (left right : StringSet) : Prop := ∃ word ∈ left, word ∈ right

theorem overlap_le (left right : StringSet) (limit : Nat) : overlap left right limit ≤ limit :=
  Nat.min_le_right _ _

theorem overlap_ne_zero {left right : StringSet} {limit : Nat} (hlimit : limit ≠ 0) :
    overlap left right limit ≠ 0 ↔ Shares left right := by
  have hzero : overlap left right limit = 0 ↔ left.toList.filter (right.contains ·) = [] := by
    rw [overlap, ← List.length_eq_zero_iff]
    omega
  rw [Ne, hzero, List.filter_eq_nil_iff]
  constructor
  · intro h
    push Not at h
    obtain ⟨word, hleft, hright⟩ := h
    exact ⟨word, ExtTreeSet.mem_toList.mp hleft, ExtTreeSet.contains_iff_mem.mp hright⟩
  · rintro ⟨word, hleft, hright⟩ h
    exact h word (ExtTreeSet.mem_toList.mpr hleft) (ExtTreeSet.contains_iff_mem.mpr hright)

instance (left right : StringSet) : Decidable (Shares left right) :=
  decidable_of_iff (overlap left right 1 ≠ 0) (overlap_ne_zero (by decide))

/-! ### Which records rank, and where -/

section Rank

variable (observedSecond : String → Option Int) (query : CandidateQuery) (newest : Int)
  (excluded : StringSet)

/-- The query names the record. -/
def MatchesExactly (record : EvidenceNode) : Prop :=
  toAsciiLowercase (trim query.exact.toList) = toAsciiLowercase record.id.toList

/-- The query's text and the record's have a token in common. -/
def SharesToken (record : EvidenceNode) : Prop :=
  Shares (tokens query.text) (tokens (recordText record))

/-- The query's path and the record's locator have a segment in common. -/
def SharesSegment (record : EvidenceNode) : Prop :=
  Shares ((query.path.map pathSegments).getD ∅) (pathSegments record.origin.locator)

/-- The records that may be suggested. -/
def Eligible (record : EvidenceNode) : Prop :=
  record.id ∉ excluded ∧ record.status ≠ .historical ∧
    (MatchesExactly query record ∨ SharesToken query record ∨ SharesSegment query record)

instance (record : EvidenceNode) : Decidable (Eligible query excluded record) :=
  inferInstanceAs (Decidable (_ ∧ _ ∧ ((toAsciiLowercase _ = toAsciiLowercase _) ∨
    Shares _ _ ∨ Shares _ _)))

/-- What a record scores. -/
def componentsOf (record : EvidenceNode) : CandidateScoreComponents where
  exactIdentifier := toAsciiLowercase (trim query.exact.toList) = toAsciiLowercase record.id.toList
  tokenOverlap := overlap (tokens query.text) (tokens (recordText record)) maxTokenOverlap
  pathSegmentOverlap := overlap ((query.path.map pathSegments).getD ∅)
    (pathSegments record.origin.locator) maxPathOverlap
  sourceRecency := recencyBucket newest (recordSecond observedSecond record)

/-- The suggestion a record makes. -/
def suggestion (record : EvidenceNode) : CandidateView :=
  let components := componentsOf observedSecond query newest record
  ⟨record.id, scoreVersion, components.scoreV1, components, reason components⟩

/-- Exact matches first, then more tokens, more segments, a larger bucket, a smaller identifier. -/
def RanksBefore (record other : EvidenceNode) : Prop :=
  let key := (componentsOf observedSecond query newest record).lexKey
  let otherKey := (componentsOf observedSecond query newest other).lexKey
  otherKey < key ∨ otherKey = key ∧ record.id < other.id

variable {observedSecond query newest excluded}

theorem recencyBucket_le (newest : Int) (observed : Option Int) :
    recencyBucket newest observed ≤ 4 := by
  cases observed with
  | none => exact Nat.zero_le 4
  | some observed => simp only [recencyBucket]; split_ifs <;> omega

/-- **A later observation never has a smaller bucket.** -/
theorem recencyBucket_mono (newest : Int) {earlier later : Int} (h : earlier ≤ later) :
    recencyBucket newest (some earlier) ≤ recencyBucket newest (some later) := by
  have hday : daySeconds = 86400 := rfl
  have hage : max (newest - later) 0 ≤ max (newest - earlier) 0 := by omega
  simp only [recencyBucket]
  split_ifs <;> omega

theorem componentsOf_bounded (record : EvidenceNode) :
    (componentsOf observedSecond query newest record).Bounded where
  tokenOverlap := overlap_le _ _ _
  pathSegmentOverlap := overlap_le _ _ _
  sourceRecency := recencyBucket_le _ _

/-- `candidateView` suggests the eligible records. -/
theorem candidateView_eq (record : EvidenceNode) :
    candidateView observedSecond query newest excluded record =
      if Eligible query excluded record then some (suggestion observedSecond query newest record)
      else none := by
  -- the source computes the components first, and looks at three of them
  have hcomponents : candidateView observedSecond query newest excluded record =
      if excluded.contains record.id ∨ record.status = .historical then none
      else if !(componentsOf observedSecond query newest record).exactIdentifier ∧
          (componentsOf observedSecond query newest record).tokenOverlap = 0 ∧
          (componentsOf observedSecond query newest record).pathSegmentOverlap = 0 then none
      else some (suggestion observedSecond query newest record) := rfl
  have hexact : (!(componentsOf observedSecond query newest record).exactIdentifier) = true
      ↔ ¬ MatchesExactly query record := by simp [componentsOf, MatchesExactly]
  have htoken : (componentsOf observedSecond query newest record).tokenOverlap = 0
      ↔ ¬ SharesToken query record := by
    rw [← not_ne_iff]
    exact not_congr (overlap_ne_zero (by decide))
  have hsegment : (componentsOf observedSecond query newest record).pathSegmentOverlap = 0
      ↔ ¬ SharesSegment query record := by
    rw [← not_ne_iff]
    exact not_congr (overlap_ne_zero (by decide))
  have hmatches : (!(componentsOf observedSecond query newest record).exactIdentifier) = true ∧
      (componentsOf observedSecond query newest record).tokenOverlap = 0 ∧
      (componentsOf observedSecond query newest record).pathSegmentOverlap = 0
        ↔ ¬ (MatchesExactly query record ∨ SharesToken query record
          ∨ SharesSegment query record) := by
    rw [hexact, htoken, hsegment, not_or, not_or]
  have hexcluded : excluded.contains record.id = true ↔ record.id ∈ excluded :=
    ExtTreeSet.contains_iff_mem
  rw [hcomponents]
  by_cases hout : excluded.contains record.id = true ∨ record.status = .historical
  · -- excluded or historical
    have hnot : ¬ Eligible query excluded record := fun h =>
      hout.elim (fun hid => h.1 (hexcluded.mp hid)) h.2.1
    rw [if_pos hout, if_neg hnot]
  · obtain ⟨hid, hstatus⟩ := not_or.mp hout
    rw [if_neg hout]
    by_cases hmatch : MatchesExactly query record ∨ SharesToken query record
        ∨ SharesSegment query record
    · have heligible : Eligible query excluded record :=
        ⟨fun hmem => hid (hexcluded.mpr hmem), hstatus, hmatch⟩
      rw [if_neg (fun h => hmatches.mp h hmatch), if_pos heligible]
    · -- nothing matches
      have hnot : ¬ Eligible query excluded record := fun h => hmatch h.2.2
      rw [if_pos (hmatches.mpr hmatch), if_neg hnot]

/-- The suggestions, before they are sorted. -/
theorem filterMap_candidateView (records : List EvidenceNode) :
    records.filterMap (candidateView observedSecond query newest excluded) =
      (records.filter (Eligible query excluded ·)).map (suggestion observedSecond query newest) := by
  induction records with
  | nil => rfl
  | cons record records ih =>
    rw [List.filterMap_cons, List.filter_cons, candidateView_eq, ih]
    by_cases h : Eligible query excluded record
    · simp only [h, if_true, decide_true, List.map_cons]
    · simp only [h, if_false, decide_false, Bool.false_eq_true]

/-! ### The order of the suggestions -/

instance : TransCmp compareCandidates :=
  have : TransCmp (fun left right : CandidateView => compare right.score left.score) :=
    inferInstanceAs (TransCmp fun left right => compareOn CandidateView.score right left)
  inferInstanceAs (TransCmp (compareLex _ (compareOn CandidateView.recordId)))

/-- **Suggestions compare as their records rank.** -/
theorem compareCandidates_suggestion (record other : EvidenceNode) :
    compareCandidates (suggestion observedSecond query newest record)
        (suggestion observedSecond query newest other) = .lt ↔
      RanksBefore observedSecond query newest record other := by
  have h := @componentsOf_bounded observedSecond query newest record
  have h' := @componentsOf_bounded observedSecond query newest other
  rw [RanksBefore, ← CandidateScoreComponents.scoreV1_lt_iff h' h,
    ← CandidateScoreComponents.scoreV1_eq_iff h' h]
  show ((compare _ _).then (compare record.id other.id)) = .lt ↔ _
  rw [Ordering.then_eq_lt, Nat.compare_eq_lt, Nat.compare_eq_eq]
  exact or_congr Iff.rfl (and_congr Iff.rfl compareOfLessAndEq_eq_lt)

/-- The ranking is a strict order. -/
instance instAsymmRanksBefore : Std.Asymm (RanksBefore observedSecond query newest) where
  asymm record other h h' := by
    rw [← compareCandidates_suggestion] at h h'
    exact OrientedCmp.not_lt_of_lt h h'

/-- Records with different identifiers make different suggestions. -/
theorem compareCandidates_ne_eq {record other : EvidenceNode} (hid : record.id ≠ other.id) :
    compareCandidates (suggestion observedSecond query newest record)
      (suggestion observedSecond query newest other) ≠ .eq := by
  show ((compare _ _).then (compare record.id other.id)) ≠ .eq
  intro heq
  exact hid (Std.compare_eq_iff_eq.mp (Ordering.then_eq_eq.mp heq).2)

theorem pairwise_id_ne {records : List EvidenceNode} (hids : (records.map (·.id)).Nodup) :
    records.Pairwise (fun record other => record.id ≠ other.id) :=
  List.pairwise_map.mp hids

/-- **The eligible records have one ranking**, and the suggestions follow it. -/
theorem isRanking_eligible {records : List EvidenceNode} (hids : (records.map (·.id)).Nodup) :
    ∃ ranking, IsRanking (RanksBefore observedSecond query newest)
        (records.filter (Eligible query excluded ·)) ranking ∧
      sortBy compareCandidates
          (records.filterMap (candidateView observedSecond query newest excluded)) =
        ranking.map (suggestion observedSecond query newest) := by
  have hne : (records.filter (Eligible query excluded ·)).Pairwise (fun record other =>
      compareCandidates (suggestion observedSecond query newest record)
        (suggestion observedSecond query newest other) ≠ .eq) :=
    ((pairwise_id_ne hids).filter _).imp compareCandidates_ne_eq
  have hranking := isRanking_sortBy (suggestion observedSecond query newest) hne
  simp only [compareCandidates_suggestion] at hranking
  refine ⟨_, hranking, ?_⟩
  rw [filterMap_candidateView, map_sortBy]

/-! ### The newest observation -/

theorem newestSecond_eq (observedSecond : String → Option Int) (records : List EvidenceNode) :
    newestSecond observedSecond records =
      ((records.filterMap (recordSecond observedSecond)).max?).getD 0 := by
  unfold newestSecond
  cases records.filterMap (recordSecond observedSecond) with
  | nil => rfl
  | cons second seconds => rw [List.max?_cons']; rfl

/-- The newest observation does not depend on the order of the records. -/
theorem newestSecond_perm {records records' : List EvidenceNode} (hperm : records'.Perm records) :
    newestSecond observedSecond records' = newestSecond observedSecond records := by
  have hseconds := hperm.filterMap (recordSecond observedSecond)
  rw [newestSecond_eq, newestSecond_eq]
  congr 1
  cases h : (records.filterMap (recordSecond observedSecond)).max? with
  | none =>
    rw [List.max?_eq_none_iff] at h ⊢
    rw [h] at hseconds
    exact hseconds.eq_nil
  | some second =>
    rw [List.max?_eq_some_iff] at h ⊢
    simp only [hseconds.mem_iff]
    exact h

/-! ### The ten best -/

theorem rankCandidates_perm {records records' : List EvidenceNode}
    (hids : (records.map (·.id)).Nodup) (hperm : records'.Perm records) :
    rankCandidates observedSecond query records' excluded =
      rankCandidates observedSecond query records excluded := by
  have hids' : (records'.map (·.id)).Nodup := (hperm.map _).nodup_iff.mpr hids
  obtain ⟨ranking, hranking, hsorted⟩ := @isRanking_eligible observedSecond query
    (newestSecond observedSecond records) excluded records hids
  obtain ⟨ranking', hranking', hsorted'⟩ := @isRanking_eligible observedSecond query
    (newestSecond observedSecond records) excluded records' hids'
  have heq : ranking' = ranking := hranking'.unique hranking (hperm.filter _)
  show (sortBy compareCandidates _).take maxCandidates = (sortBy compareCandidates _).take _
  rw [newestSecond_perm hperm, hsorted, hsorted', heq]

/-- **The ten best.**  Among records with distinct identifiers the suggestions are the first ten of
    the ranking of the eligible records, nothing left out ranks before anything returned, every
    score is that of the components returned with it, and the order of the records is immaterial;
    a record observed later never has a smaller recency bucket. -/
theorem rankCandidates_ranking (observedSecond : String → Option Int) (query : CandidateQuery)
    (excluded : StringSet) {records : List EvidenceNode} (hids : (records.map (·.id)).Nodup) :
    let newest := newestSecond observedSecond records
    let eligible := records.filter (Eligible query excluded ·)
    let candidates := rankCandidates observedSecond query records excluded
    (∃ ranking, IsRanking (RanksBefore observedSecond query newest) eligible ranking ∧
      candidates = (ranking.take 10).map (suggestion observedSecond query newest) ∧
      ∀ kept ∈ ranking.take 10, ∀ left ∈ ranking.drop 10,
        ¬ RanksBefore observedSecond query newest left kept) ∧
    candidates.length = min 10 eligible.length ∧
    (∀ candidate ∈ candidates, candidate.score = candidate.components.scoreV1) ∧
    (∀ records', records'.Perm records →
      rankCandidates observedSecond query records' excluded = candidates) ∧
    ∀ earlier ∈ records, ∀ later ∈ records, ∀ second second',
      recordSecond observedSecond earlier = some second →
      recordSecond observedSecond later = some second' → second ≤ second' →
      (componentsOf observedSecond query newest earlier).sourceRecency ≤
        (componentsOf observedSecond query newest later).sourceRecency := by
  intro newest eligible candidates
  obtain ⟨ranking, hranking, hsorted⟩ := @isRanking_eligible observedSecond query newest
    excluded records hids
  have hcandidates : candidates = (ranking.take 10).map (suggestion observedSecond query newest) := by
    show (sortBy compareCandidates _).take maxCandidates = _
    rw [hsorted, List.map_take]
    rfl
  refine ⟨⟨ranking, hranking, hcandidates, fun kept hkept left hleft hbefore => ?_⟩, ?_, ?_,
    fun records' hperm => rankCandidates_perm hids hperm, ?_⟩
  · -- what is left out follows what is kept
    exact (instAsymmRanksBefore).asymm _ _ hbefore (hranking.before_of_take_of_drop hkept hleft)
  · rw [hcandidates, List.length_map]
    exact hranking.length_take 10
  · rw [hcandidates]
    rintro candidate hmem
    obtain ⟨record, -, rfl⟩ := List.mem_map.mp hmem
    rfl
  · -- both buckets count from the newest of all records
    intro earlier _ later _ second second' hearlier hlater hle
    show recencyBucket newest (recordSecond observedSecond earlier) ≤
      recencyBucket newest (recordSecond observedSecond later)
    rw [hearlier, hlater]
    exact recencyBucket_mono newest hle

end Rank

/-- A story that is known by its identifier only. -/
def story (id : String) : EvidenceNode where
  id := id
  kind := .workItem
  status := .current
  subjectId := none
  outcomeId := none
  origin := ⟨.document, "stories.md", none, none⟩

set_option maxRecDepth 4000 in
/-- The query names one of two stories, which is the one suggestion in either order. -/
theorem rankCandidates_ranking_stories :
    (rankCandidates (fun _ => none) ⟨"story-a", "", none⟩ [story "STORY-B", story "STORY-A"]
      ∅).length = 1 ∧
    rankCandidates (fun _ => none) ⟨"story-a", "", none⟩ [story "STORY-A", story "STORY-B"] ∅ =
      rankCandidates (fun _ => none) ⟨"story-a", "", none⟩ [story "STORY-B", story "STORY-A"] ∅ := by
  have h := rankCandidates_ranking (fun _ => none) ⟨"story-a", "", none⟩ ∅
    (show (([story "STORY-B", story "STORY-A"]).map (·.id)).Nodup by decide)
  refine ⟨h.2.1.trans (by decide), h.2.2.2.1 _ (List.Perm.swap _ _ [])⟩

end Rationale.Engine
