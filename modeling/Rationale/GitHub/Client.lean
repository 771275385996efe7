import Rationale.GitHub.Normalize

namespace Rationale.GitHub

open Rationale.Text

/-!
# The GitHub client

`crates/rationale-github/src/client.rs`: the bounded, paged and conditional fetch of one repository.

* `pageOf` — what one reply makes of a page;
* `pagesFrom`, `collection` — the loop over the pages of a collection;
* `synchronize` — the issues, and the commits of every pull request.

The server is any sequence of replies, one for each request that is sent.  URLs, JSON and the stored
cursor are read by other crates: `Formats` holds what they compute.  A `Session` keeps the request
counter of the code, and every exchange with the server.
-/

def maxResponseBytes : Nat := 8 * 1024 * 1024

def maxPages : Nat := 100

def maxRecords : Nat := 10000

def maxRequests : Nat := 1000

/-- `reqwest::Url`: its text, and the parts that the client looks at. -/
structure Url where
  text : String
  scheme : String
  hostStr : Option String
  /-- `port_or_known_default`. -/
  port : Option Nat
  username : String
  password : Option String
  path : String
  deriving DecidableEq, Repr

/-- Opaque resumable state: the `ETag` of the first issues page. -/
structure GitHubCursor where
  issuesEtag : Option String
  deriving DecidableEq, Repr

/-- What other crates compute. -/
structure Formats where
  /-- `Url::parse`. -/
  parseUrl : String → Option Url
  /-- `Url::join`. -/
  joinUrl : Url → String → Option Url
  /-- `serde_json::from_slice` of a page of issues. -/
  items : List UInt8 → Option (List ApiItem)
  /-- `serde_json::from_slice` of a page of commits. -/
  commits : List UInt8 → Option (List ApiCommit)
  /-- `serde_json::from_str` of a stored cursor. -/
  cursor : String → Option GitHubCursor

inductive GitHubError where
  | transport (endpoint category : String)
  | httpStatus (endpoint : String) (status : Nat)
  | resourceLimit (resource : String) (limit : Nat)
  | invalidResponse (endpoint : String)
  | invalidPagination
  | invalidCursor
  deriving DecidableEq, Repr

/-- Primary rate-limit metadata copied from GitHub response headers. -/
structure RateLimit where
  limit : Option Nat
  remaining : Option Nat
  resetAt : Option Nat
  deriving DecidableEq, Repr

def RateLimit.default : RateLimit := ⟨none, none, none⟩

/-- The later limits, and the smaller number of remaining requests. -/
def mergeRateLimit (current incoming : RateLimit) : RateLimit where
  limit := incoming.limit.or current.limit
  remaining := match current.remaining, incoming.remaining with
    | some left, some right => some (min left right)
    | left, right => left.or right
  resetAt := incoming.resetAt.or current.resetAt

/-! ### Replies -/

/-- A piece of a body as it arrives. -/
inductive Chunk where
  | bytes (bytes : List UInt8)
  | failed (category : String)
  deriving DecidableEq, Repr

/-- A response: its headers under lower-case names in their order, a value's octets as characters. -/
structure Response where
  status : Nat
  headers : List (String × List Char)
  body : List Chunk
  deriving DecidableEq, Repr

/-- What comes of a request. -/
inductive Reply where
  | failed (category : String)
  | response (response : Response)
  deriving DecidableEq, Repr

/-- `HeaderValue::to_str` accepts visible ASCII, spaces and tabs. -/
def isVisibleAscii (c : Char) : Bool := (32 ≤ c.toNat && c.toNat < 127) || c = '\t'

/-- The first value of a header, when it is a text. -/
def headerString (response : Response) (name : String) : Option (List Char) :=
  match response.headers.find? (·.1 = name) with
  | some (_, value) => if value.all isVisibleAscii then some value else none
  | none => none

def numericHeader (response : Response) (name : String) : Option Nat :=
  (headerString response name).bind parseU64

def responseRateLimit (response : Response) : RateLimit where
  limit := numericHeader response "x-ratelimit-limit"
  remaining := numericHeader response "x-ratelimit-remaining"
  -- `i64::try_from`
  resetAt := (numericHeader response "x-ratelimit-reset").filter (· < 2 ^ 63)

/-- The link of one part of a `Link` header, when the part has `rel="next"`. -/
def partLink (part : List Char) : Option (List Char) :=
  match part.splitOn ';' with
  | [] => none
  | url :: pieces =>
      if pieces.any (fun piece => trim piece = "rel=\"next\"".toList) then
        (stripPrefix ['<'] (trim url)).bind (stripSuffix ['>'])
      else none

def nextLink (value : List Char) : Option (List Char) := (value.splitOn ',').findSome? partLink

/-- The chunks of a body, put together within the byte limit. -/
def boundedBody (endpoint : String) (body : List UInt8) : List Chunk → Except GitHubError (List UInt8)
  | [] => .ok body
  | .failed category :: _ => .error (.transport endpoint category)
  | .bytes chunk :: rest =>
      if body.length + chunk.length > maxResponseBytes then
        .error (.resourceLimit "response byte" maxResponseBytes)
      else boundedBody endpoint (body ++ chunk) rest

inductive Page (α : Type) where
  | updated (items : List α) (next : Option String) (etag : Option String) (rateLimit : RateLimit)
  | notModified (rateLimit : RateLimit)

/-- The part of `page` after the request is sent. -/
def pageOf {α : Type} (decode : List UInt8 → Option (List α)) (endpoint : String) :
    Reply → Except GitHubError (Page α)
  | .failed category => .error (.transport endpoint category)
  | .response response =>
      let rateLimit := responseRateLimit response
      if response.status = 304 then .ok (.notModified rateLimit)
      else if ¬ (200 ≤ response.status ∧ response.status < 300) then
        .error (.httpStatus endpoint response.status)
      else
        let etag := (headerString response "etag").map String.ofList
        let next := ((headerString response "link").bind nextLink).map String.ofList
        match boundedBody endpoint [] response.body with
        | .error error => .error error
        | .ok body => match decode body with
          | none => .error (.invalidResponse endpoint)
          | some items => .ok (.updated items next etag rateLimit)

/-! ### Requests -/

/-- The collections that are fetched. -/
inductive CollectionId where
  | issues
  | commits (pull : Nat)
  deriving DecidableEq, Repr

/-- A request that was sent, and its reply. -/
structure Exchange where
  collection : CollectionId
  page : Nat
  url : Url
  etag : Option String
  reply : Reply
  deriving DecidableEq, Repr

structure Session where
  /-- The counter of the code. -/
  requests : Nat
  sent : List Exchange

def Session.start : Session := ⟨0, []⟩

/-- `HeaderValue::from_str`: no control characters but tabs. -/
def isHeaderValue (text : String) : Bool :=
  text.toList.all fun c => (32 ≤ c.toNat && c.toNat ≠ 127) || c = '\t'

structure Gathered (α : Type) where
  items : List α
  etag : Option String
  rateLimit : RateLimit

def Gathered.empty {α : Type} : Gathered α := ⟨[], none, RateLimit.default⟩

inductive Collection (α : Type) where
  | updated (gathered : Gathered α)
  | notModified (rateLimit : RateLimit)

section Fetch

variable (formats : Formats) (apiBase : Url) (repository : GitHubRepository) (server : Nat → Reply)

def validateNext (next : String) : Except GitHubError Url :=
  match formats.parseUrl next with
  | none => .error .invalidPagination
  | some url => match formats.joinUrl apiBase ("repos/" ++ repository.slug ++ "/") with
    | none => .error .invalidPagination
    | some scope =>
        let sameOrigin := url.scheme = scope.scheme ∧ url.hostStr = scope.hostStr ∧
          url.port = scope.port ∧ url.username = "" ∧ url.password = none
        if ¬ sameOrigin ∨ ¬ scope.path.toList <+: url.path.toList then .error .invalidPagination
        else .ok url

section Pages

variable {α : Type} (decode : List UInt8 → Option (List α)) (id : CollectionId)

/-- One request.  A request with an invalid header value is not sent. -/
def page (index : Nat) (url : Url) (etag : Option String) (s : Session) :
    Except GitHubError (Page α) × Session :=
  if etag.any (fun etag => !isHeaderValue etag) then
    (.error (.transport url.path "transport"), s)
  else
    let reply := server s.sent.length
    (pageOf decode url.path reply, { s with sent := s.sent ++ [⟨id, index, url, etag, reply⟩] })

/-- The loop of `collection`, with the number of turns that remain. -/
def pagesFrom (etag : Option String) :
    Nat → Nat → Url → Gathered α → Session → Except GitHubError (Collection α) × Session
  | 0, _, _, _, s => (.error (.resourceLimit "page" maxPages), s)
  | turns + 1, index, url, gathered, s =>
      let s := { s with requests := s.requests + 1 }
      if s.requests > maxRequests then (.error (.resourceLimit "request" maxRequests), s)
      else match page server decode id index url (if index = 0 then etag else none) s with
      | (.error error, s) => (.error error, s)
      | (.ok (.notModified rateLimit), s) => (.ok (.notModified rateLimit), s)
      | (.ok (.updated items next pageEtag pageRate), s) =>
          let gathered : Gathered α :=
            ⟨gathered.items ++ items, if index = 0 then pageEtag else gathered.etag,
              mergeRateLimit gathered.rateLimit pageRate⟩
          if gathered.items.length > maxRecords then
            (.error (.resourceLimit "record" maxRecords), s)
          else match next with
          | none => (.ok (.updated gathered), s)
          | some next => match validateNext formats apiBase repository next with
            | .error error => (.error error, s)
            | .ok url => pagesFrom etag turns (index + 1) url gathered s

def collection (initialPath : String) (etag : Option String) (s : Session) :
    Except GitHubError (Collection α) × Session :=
  match formats.joinUrl apiBase initialPath with
  | none => (.error .invalidPagination, s)
  | some url => pagesFrom formats apiBase repository server decode id etag maxPages 0 url .empty s

end Pages

/-! ### Synchronization -/

/-- What a function comes to: a result, an error or a panic. -/
inductive Outcome (α : Type) where
  | ok (a : α)
  | error (error : GitHubError)
  | panicked (message : String)

/-- Normalized contribution from one successful GitHub synchronization. -/
structure GitHubEvidence where
  contribution : Contribution
  cursor : GitHubCursor
  rateLimit : RateLimit

/-- Result of a conditional GitHub synchronization. -/
inductive GitHubSyncOutcome where
  | updated (evidence : GitHubEvidence)
  | notModified (cursor : GitHubCursor) (rateLimit : RateLimit)

def issuesPath : String :=
  "repos/" ++ repository.slug ++ "/issues?state=all&sort=updated&direction=desc&per_page=100"

def commitsPath (number : Nat) : String :=
  "repos/" ++ repository.slug ++ "/pulls/" ++ toString number ++ "/commits?per_page=100"

/-- The loop over the pull requests. -/
def pullCommits (commits : Nat → List ApiCommit) (rateLimit : RateLimit) :
    List ApiItem → Session → Outcome ((Nat → List ApiCommit) × RateLimit) × Session
  | [], s => (.ok (commits, rateLimit), s)
  | item :: rest, s =>
      match collection formats apiBase repository server formats.commits (.commits item.number)
        (commitsPath repository item.number) none s with
      | (.error error, s) => (.error error, s)
      | (.ok (.notModified _), s) => (.panicked "commit collections are not conditional", s)
      | (.ok (.updated gathered), s) =>
          pullCommits (fun number => if number = item.number then gathered.items else commits number)
            (mergeRateLimit rateLimit gathered.rateLimit) rest s

def decodeCursor : Option String → Except GitHubError GitHubCursor
  | none => .ok ⟨none⟩
  | some text => match formats.cursor text with
    | none => .error .invalidCursor
    | some cursor => .ok cursor

def synchronize (hash : String → String) (cursor : Option String) :
    Outcome GitHubSyncOutcome × Session :=
  match decodeCursor formats cursor with
  | .error error => (.error error, .start)
  | .ok cursor =>
      match collection formats apiBase repository server formats.items .issues
        (issuesPath repository) cursor.issuesEtag .start with
      | (.error error, s) => (.error error, s)
      | (.ok (.notModified rateLimit), s) => (.ok (.notModified cursor rateLimit), s)
      | (.ok (.updated gathered), s) =>
          match pullCommits formats apiBase repository server (fun _ => []) gathered.rateLimit
            (gathered.items.filter (·.isPull)) s with
          | (.error error, s) => (.error error, s)
          | (.panicked message, s) => (.panicked message, s)
          | (.ok (commits, rateLimit), s) =>
              (.ok (.updated ⟨buildEvidence hash repository gathered.items commits,
                ⟨gathered.etag⟩, rateLimit⟩), s)

end Fetch

end Rationale.GitHub
