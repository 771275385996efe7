import Rationale.EdgeId
import Rationale.Text
import Rationale.Library.SortUniq
import Rationale.Library.KeyedMap

namespace Rationale.GitHub

open Std Rationale.Library Rationale.Text

/-!
# GitHub normalization

`crates/rationale-github/src/normalize.rs`: from the items and commits an API fetch returned to one
contribution of records and edges.

* `explicitClosingReferences`, `parseReference` — the issues a pull request says it closes;
* `buildEvidence` — one record for each item and commit, and their explicit relationships.
-/

/-- Canonical GitHub owner and repository identity. -/
structure GitHubRepository where
  owner : String
  name : String
  deriving DecidableEq, Repr

/-- Canonical `owner/name` slug. -/
def GitHubRepository.slug (repository : GitHubRepository) : String :=
  repository.owner ++ "/" ++ repository.name

/-- One issue or pull request of the API. -/
structure ApiItem where
  number : Nat
  body : Option String
  htmlUrl : String
  isPull : Bool
  deriving DecidableEq, Repr

structure ApiCommit where
  sha : String
  htmlUrl : String
  deriving DecidableEq, Repr

/-- Records and edges of one normalized contribution, in stable identifier order. -/
structure Contribution where
  records : List EvidenceNode
  edges : List EvidenceEdge
  deriving DecidableEq, Repr

def githubOrigin (locator : String) : Origin := ⟨.github, locator, none, none⟩

def issueId (number : Nat) : String := "#" ++ toString number

def pullId (number : Nat) : String := "PR-" ++ toString number

def edge (hash : String → String) (kind : EdgeKind) (source target : String) (origin : Origin) :
    EvidenceEdge :=
  hashedEdge hash id kind source target .current origin

def parseReference (reference : List Char) (repository : GitHubRepository) : Option Nat :=
  match stripPrefix ['#'] reference with
  | some number => parseU64 number
  | none => match stripPrefix (repository.slug ++ "#").toList (toAsciiLowercase reference) with
    | some number => parseU64 number
    | none => (stripPrefix ("https://github.com/" ++ repository.slug ++ "/issues/").toList
        (toAsciiLowercase reference)).bind parseU64

def closingKeywords : List String :=
  ["close", "closes", "closed", "fix", "fixes", "fixed", "resolve", "resolves", "resolved"]

def closingReference (repository : GitHubRepository) (pair : List Char × List Char) : Option Nat :=
  let keyword := toAsciiLowercase (trimMatches (fun c => !c.isAlpha) pair.1)
  if closingKeywords.contains (String.ofList keyword) then
    parseReference (trimMatches ([',', '.', ';', ':', '(', ')', '[', ']'].contains ·) pair.2)
      repository
  else none

/-- The issues named right after a closing keyword, in increasing order. -/
def explicitClosingReferences (body : String) (repository : GitHubRepository) : List Nat :=
  let tokens := splitWhitespace body.toList
  sortUniq compare ((tokens.zip tokens.tail).filterMap (closingReference repository))

section Build

variable (hash : String → String) (repository : GitHubRepository)

/-- The maps that `build_evidence` fills. -/
structure BuildState where
  records : StringMap EvidenceNode
  edges : StringMap EvidenceEdge

def BuildState.addEdge (state : BuildState) (edge : EvidenceEdge) : BuildState :=
  { state with edges := state.edges.insert edge.id edge }

/-- One commit of a pull request: its record, unless there is one, and its membership. -/
def buildCommit (pull : String) (origin : Origin) (state : BuildState) (commit : ApiCommit) :
    BuildState :=
  let node : EvidenceNode :=
    ⟨commit.sha, .change, .current, none, none, githubOrigin commit.htmlUrl⟩
  { state with records := state.records.insertIfNew commit.sha node }.addEdge
    (edge hash .includedInPr commit.sha pull origin)

def itemId (item : ApiItem) : String :=
  if item.isPull then pullId item.number else issueId item.number

def itemNode (item : ApiItem) : EvidenceNode where
  id := itemId item
  kind := if item.isPull then .review else .workItem
  status := .current
  subjectId := none
  outcomeId := none
  origin := githubOrigin item.htmlUrl

/-- The relationships of a pull request: to the issues it closes, and from its commits. -/
def buildPull (issueNumbers : List Nat) (commits : Nat → List ApiCommit) (state : BuildState)
    (item : ApiItem) : BuildState :=
  let origin := githubOrigin item.htmlUrl
  let closed := (explicitClosingReferences (item.body.getD "") repository).filter
    (issueNumbers.contains ·)
  let state := closed.foldl (fun state number =>
    state.addEdge (edge hash .resolvesIssue (itemId item) (issueId number) origin)) state
  (commits item.number).foldl (buildCommit hash (itemId item) origin) state

/-- One turn of the loop of `build_evidence`. -/
def buildItem (issueNumbers : List Nat) (commits : Nat → List ApiCommit) (state : BuildState)
    (item : ApiItem) : BuildState :=
  let state := { state with records := state.records.insert (itemId item) (itemNode item) }
  if !item.isPull then state else buildPull hash repository issueNumbers commits state item

def buildEvidence (items : List ApiItem) (commits : Nat → List ApiCommit) : Contribution :=
  let issueNumbers := (items.filter (fun item => !item.isPull)).map (·.number)
  let state := items.foldl (buildItem hash repository issueNumbers commits) ⟨∅, ∅⟩
  ⟨values state.records, values state.edges⟩

end Build

end Rationale.GitHub
