import Rationale.Protocol
import Rationale.Text
import Rationale.Library.SortUniq

namespace Rationale.Engine

open Std Rationale.Library Rationale.Text

/-!
# Candidate ranking

`crates/rationale-engine/src/candidate.rs`: suggestions that never enter a proof.

* `tokens`, `pathSegments`, `overlap`, `recencyBucket` — the bounded score components;
* `rankCandidates` — the ten best matching records, by score and then identifier.

`observedSecond` stands for `jiff`'s reading of a timestamp as Unix seconds.
-/

/-- Auditable components in candidate scoring version 1. -/
structure CandidateScoreComponents where
  exactIdentifier : Bool
  tokenOverlap : Nat
  pathSegmentOverlap : Nat
  sourceRecency : Nat
  deriving DecidableEq, Repr

/-- The version 1 score of its components. -/
def CandidateScoreComponents.scoreV1 (components : CandidateScoreComponents) : Nat :=
  (if components.exactIdentifier then 1 else 0) * 1000 + components.tokenOverlap * 100
    + components.pathSegmentOverlap * 20 + components.sourceRecency

/-- One ranked suggestion that is never supplied to the proof kernel as a claim. -/
structure CandidateView where
  recordId : String
  scoreVersion : Nat
  score : Nat
  components : CandidateScoreComponents
  reason : String
  deriving DecidableEq, Repr

structure CandidateQuery where
  exact : String
  text : String
  path : Option String

def scoreVersion : Nat := 1
def maxCandidates : Nat := 10
def maxTokenOverlap : Nat := 8
def maxPathOverlap : Nat := 4
def daySeconds : Int := 86400

/-- A set of words, from a list of character lists. -/
def wordSet (parts : List (List Char)) : StringSet :=
  ExtTreeSet.ofList ((parts.filter (· ≠ [])).map fun part =>
    String.ofList (toAsciiLowercase part)) compare

def tokens (text : String) : StringSet :=
  wordSet (text.toList.splitOnP (fun c => !isAsciiAlphanumeric c))

def pathSegments (path : String) : StringSet :=
  let path := match splitOnce '#' path.toList with
    | some (path, _) => path
    | none => path.toList
  wordSet ((path.splitOn '/').map trim)

def overlap (left right : StringSet) (limit : Nat) : Nat :=
  min ((left.toList.filter (right.contains ·)).length) limit

def recordText (record : EvidenceNode) : String :=
  [record.subjectId, record.outcomeId, some record.origin.locator].foldl
    (fun text value => match value with
      | some value => text ++ " " ++ value
      | none => text) record.id

section Rank

variable (observedSecond : String → Option Int)

def recordSecond (record : EvidenceNode) : Option Int :=
  record.origin.observedAt.bind observedSecond

def recencyBucket (newest : Int) : Option Int → Nat
  | none => 0
  | some observed =>
      if newest ≤ 0 then 0
      else
        let age := max (newest - observed) 0
        if age ≤ 7 * daySeconds then 4
        else if age ≤ 30 * daySeconds then 3
        else if age ≤ 180 * daySeconds then 2
        else if age ≤ 365 * daySeconds then 1
        else 0

def reason (components : CandidateScoreComponents) : String :=
  ", ".intercalate <|
    (if components.exactIdentifier then ["exact identifier"] else []) ++
    (if components.tokenOverlap > 0 then
      [toString components.tokenOverlap ++ " exact tokens"] else []) ++
    (if components.pathSegmentOverlap > 0 then
      [toString components.pathSegmentOverlap ++ " path segments"] else []) ++
    (if components.sourceRecency > 0 then
      ["recency bucket " ++ toString components.sourceRecency] else [])

/-- The most recent observation among the records, or zero. -/
def newestSecond (records : List EvidenceNode) : Int :=
  match records.filterMap (recordSecond observedSecond) with
  | [] => 0
  | second :: seconds => seconds.foldl max second

/-- The suggestion for one record, unless it is excluded or matches nothing. -/
def candidateView (query : CandidateQuery) (newest : Int) (excluded : StringSet)
    (record : EvidenceNode) : Option CandidateView :=
  if excluded.contains record.id ∨ record.status = .historical then none
  else
    let components : CandidateScoreComponents :=
      { exactIdentifier := toAsciiLowercase (trim query.exact.toList)
          = toAsciiLowercase record.id.toList
        tokenOverlap := overlap (tokens query.text) (tokens (recordText record)) maxTokenOverlap
        pathSegmentOverlap := overlap ((query.path.map pathSegments).getD ∅)
          (pathSegments record.origin.locator) maxPathOverlap
        sourceRecency := recencyBucket newest (recordSecond observedSecond record) }
    if !components.exactIdentifier ∧ components.tokenOverlap = 0 ∧
        components.pathSegmentOverlap = 0 then none
    else some ⟨record.id, scoreVersion, components.scoreV1, components, reason components⟩

/-- Higher scores first, then identifiers. -/
def compareCandidates : CandidateView → CandidateView → Ordering :=
  compareLex (fun left right => compare right.score left.score) (compareOn CandidateView.recordId)

def rankCandidates (query : CandidateQuery) (records : List EvidenceNode) (excluded : StringSet) :
    List CandidateView :=
  let newest := newestSecond observedSecond records
  (sortBy compareCandidates
    (records.filterMap (candidateView observedSecond query newest excluded))).take maxCandidates

end Rank

end Rationale.Engine
