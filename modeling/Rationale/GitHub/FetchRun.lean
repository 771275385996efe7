import Rationale.GitHub.Client

namespace Rationale.GitHub

open Rationale.Text

/-!
# Runs of the GitHub client

The loops of the client as relations, and what a 304 reply makes of a synchronization.

* `PagesRun`, `pagesRun_pagesFrom` — one constructor for each way in which a turn of the loop ends;
* `PagesRun.exchanges` — a collection is reported unchanged exactly when a page is answered 304;
* `PullsRun`, `SyncRun`, `SyncRun.exchanges` — the same for a synchronization;
* `synchronize_returns_iff` — it panics exactly when a page of commits is answered 304.
-/

/-- The reply is a response with status 304. -/
def Reply.isNotModified : Reply → Bool
  | .failed _ => false
  | .response answer => answer.status = 304

/-! ### The loop over pages -/

section Pages

variable {formats : Formats} {apiBase : Url} {repository : GitHubRepository} {server : Nat → Reply}
  {α : Type} {decode : List UInt8 → Option (List α)} {id : CollectionId} {etag : Option String}

/-- After one more request with its exchange. -/
def Session.send (s : Session) (x : Exchange) : Session := ⟨s.requests + 1, s.sent ++ [x]⟩

@[simp] theorem Session.requests_send (s : Session) (x : Exchange) :
    (s.send x).requests = s.requests + 1 := rfl

@[simp] theorem Session.sent_send (s : Session) (x : Exchange) : (s.send x).sent = s.sent ++ [x] := rfl

/-- What is gathered after one more page. -/
def Gathered.add (gathered : Gathered α) (index : Nat) (items : List α) (etag : Option String)
    (rateLimit : RateLimit) : Gathered α :=
  ⟨gathered.items ++ items, if index = 0 then etag else gathered.etag,
    mergeRateLimit gathered.rateLimit rateLimit⟩

/-- The exchange of a request for a page. -/
def exchange (server : Nat → Reply) (id : CollectionId) (etag : Option String) (index : Nat) (url : Url)
    (s : Session) : Exchange :=
  ⟨id, index, url, if index = 0 then etag else none, server s.sent.length⟩

/-- A run of the loop: from the turns that remain, the page, its URL, what is gathered and the session
    to a result and a session. -/
inductive PagesRun (formats : Formats) (apiBase : Url) (repository : GitHubRepository)
    (server : Nat → Reply) (decode : List UInt8 → Option (List α)) (id : CollectionId)
    (etag : Option String) : Nat → Nat → Url → Gathered α → Session →
      Except GitHubError (Collection α) → Session → Prop where
  /-- The page limit. -/
  | exhausted {index url gathered s} :
      PagesRun formats apiBase repository server decode id etag 0 index url gathered s
        (.error (.resourceLimit "page" maxPages)) s
  /-- The request limit, or a cursor that is no header value: nothing is sent. -/
  | unsent {turns index url gathered s} (error : GitHubError) :
      PagesRun formats apiBase repository server decode id etag (turns + 1) index url gathered s
        (.error error) ⟨s.requests + 1, s.sent⟩
  | failed {turns index url gathered s} (error : GitHubError) (hlimit : s.requests < maxRequests)
      (hreply : (server s.sent.length).isNotModified = false) :
      PagesRun formats apiBase repository server decode id etag (turns + 1) index url gathered s
        (.error error) (s.send (exchange server id etag index url s))
  | notModified {turns index url gathered s} (rateLimit : RateLimit)
      (hlimit : s.requests < maxRequests) (hreply : (server s.sent.length).isNotModified = true) :
      PagesRun formats apiBase repository server decode id etag (turns + 1) index url gathered s
        (.ok (.notModified rateLimit)) (s.send (exchange server id etag index url s))
  | last {turns index url gathered s items pageEtag rateLimit} (hlimit : s.requests < maxRequests)
      (hpage : pageOf decode url.path (server s.sent.length) =
        .ok (.updated items none pageEtag rateLimit))
      (hrecords : (gathered.add index items pageEtag rateLimit).items.length ≤ maxRecords) :
      PagesRun formats apiBase repository server decode id etag (turns + 1) index url gathered s
        (.ok (.updated (gathered.add index items pageEtag rateLimit)))
        (s.send (exchange server id etag index url s))
  | next {turns index url gathered s items link pageEtag rateLimit url' result s'}
      (hlimit : s.requests < maxRequests)
      (hpage : pageOf decode url.path (server s.sent.length) =
        .ok (.updated items (some link) pageEtag rateLimit))
      (hrecords : (gathered.add index items pageEtag rateLimit).items.length ≤ maxRecords)
      (hvalid : validateNext formats apiBase repository link = .ok url')
      (hrest : PagesRun formats apiBase repository server decode id etag turns (index + 1) url'
        (gathered.add index items pageEtag rateLimit)
        (s.send (exchange server id etag index url s)) result s') :
      PagesRun formats apiBase repository server decode id etag (turns + 1) index url gathered s
        result s'

/-- What a reply makes of a page. -/
inductive PageRead (decode : List UInt8 → Option (List α)) (endpoint : String) :
    Reply → Except GitHubError (Page α) → Prop where
  | notModified {response} (hstatus : response.status = 304) :
      PageRead decode endpoint (.response response)
        (.ok (.notModified (responseRateLimit response)))
  | failed {reply} (error : GitHubError) (hreply : reply.isNotModified = false) :
      PageRead decode endpoint reply (.error error)
  | read {response body items} (hsuccess : 200 ≤ response.status ∧ response.status < 300)
      (hbody : boundedBody endpoint [] response.body = .ok body) (hitems : decode body = some items) :
      PageRead decode endpoint (.response response)
        (.ok (.updated items (((headerString response "link").bind nextLink).map String.ofList)
          ((headerString response "etag").map String.ofList) (responseRateLimit response)))

theorem pageRead_pageOf (decode : List UInt8 → Option (List α)) (endpoint : String) (reply : Reply) :
    PageRead decode endpoint reply (pageOf decode endpoint reply) := by
  cases reply with
  | failed category => exact .failed _ rfl
  | response response =>
    unfold pageOf
    dsimp only
    by_cases hstatus : response.status = 304
    · rw [if_pos hstatus]
      exact .notModified hstatus
    rw [if_neg hstatus]
    have hreply : (Reply.response response).isNotModified = false := decide_eq_false hstatus
    by_cases hsuccess : 200 ≤ response.status ∧ response.status < 300
    · rw [if_neg (not_not.mpr hsuccess)]
      cases hbody : boundedBody endpoint [] response.body with
      | error error => exact .failed error hreply
      | ok body =>
        dsimp only
        cases hitems : decode body with
        | none => exact .failed _ hreply
        | some items => exact .read hsuccess hbody hitems
    · rw [if_pos hsuccess]
      exact .failed _ hreply

/-- Only a 304 reply is an unchanged page. -/
theorem isNotModified_iff {endpoint : String} {reply : Reply} {result : Except GitHubError (Page α)}
    (h : pageOf decode endpoint reply = result) :
    reply.isNotModified = true ↔ ∃ rateLimit, result = .ok (.notModified rateLimit) := by
  have hread := pageRead_pageOf decode endpoint reply
  rw [h] at hread
  cases hread with
  | notModified hstatus => simp [Reply.isNotModified, hstatus]
  | failed error hreply => simp [hreply]
  | @read response body items hsuccess hbody hitems =>
    have hstatus : response.status ≠ 304 := by omega
    simp [Reply.isNotModified, hstatus]

/-- A reply of which anything else comes is not answered 304. -/
theorem isNotModified_eq_false {endpoint : String} {reply : Reply} {result : Except GitHubError (Page α)}
    (h : pageOf decode endpoint reply = result)
    (hne : ∀ rateLimit, result ≠ .ok (.notModified rateLimit)) : reply.isNotModified = false := by
  rw [← Bool.not_eq_true, isNotModified_iff h]
  rintro ⟨rateLimit, heq⟩
  exact hne rateLimit heq

/-- **The loop** is a run. -/
theorem pagesRun_pagesFrom (turns index : Nat) (url : Url) (gathered : Gathered α) (s : Session) :
    PagesRun formats apiBase repository server decode id etag turns index url gathered s
      (pagesFrom formats apiBase repository server decode id etag turns index url gathered s).1
      (pagesFrom formats apiBase repository server decode id etag turns index url gathered s).2 := by
  induction turns generalizing index url gathered s with
  | zero => exact .exhausted
  | succ turns ih =>
    unfold pagesFrom
    dsimp only
    by_cases hlimit : s.requests + 1 > maxRequests
    · rw [if_pos hlimit]
      exact .unsent _
    rw [if_neg hlimit]
    have hrequests : s.requests < maxRequests := by omega
    unfold page
    dsimp only
    by_cases hheader : (if index = 0 then etag else none).any (fun etag => !isHeaderValue etag)
    · rw [if_pos hheader]
      exact .unsent _
    rw [if_neg hheader]
    -- the request is sent: by what its reply makes of the page
    cases hpage : pageOf decode url.path (server s.sent.length) with
    | error error =>
      exact .failed error hrequests (isNotModified_eq_false hpage (by simp))
    | ok found =>
      cases found with
      | notModified rateLimit =>
        exact .notModified rateLimit hrequests ((isNotModified_iff hpage).mpr ⟨rateLimit, rfl⟩)
      | updated items link pageEtag rateLimit =>
        have hreply := isNotModified_eq_false hpage (by simp)
        dsimp only
        by_cases hrecords : (gathered.items ++ items).length > maxRecords
        · rw [if_pos hrecords]
          exact .failed _ hrequests hreply
        rw [if_neg hrecords]
        cases link with
        | none => exact .last hrequests hpage (Nat.le_of_not_lt hrecords)
        | some link =>
          dsimp only
          cases hvalid : validateNext formats apiBase repository link with
          | error error => exact .failed error hrequests hreply
          | ok url' =>
            exact .next hrequests hpage (Nat.le_of_not_lt hrecords) hvalid (ih ..)

/-- An exchange of a collection, at a page from `index` on. -/
structure FitsIn (id : CollectionId) (etag : Option String) (index : Nat) (url : Url) (x : Exchange) :
    Prop where
  collection : x.collection = id
  etag : x.etag = if x.page = 0 then etag else none
  page : index ≤ x.page
  url : x.page = index → x.url = url

variable {turns index : Nat} {url : Url} {gathered : Gathered α} {s s' : Session}
  {result : Except GitHubError (Collection α)}

theorem fitsIn_exchange : FitsIn id etag index url (exchange server id etag index url s) :=
  ⟨rfl, rfl, le_rfl, fun _ => rfl⟩

theorem FitsIn.succ {url' : Url} {x : Exchange} (h : FitsIn id etag (index + 1) url' x) :
    FitsIn id etag index url x where
  collection := h.collection
  etag := h.etag
  page := by
    have hpage := h.page
    omega
  url heq := by
    have hpage := h.page
    omega

/-- **The exchanges of a run**: those of its collection, and a 304 reply exactly when the collection
    is reported unchanged. -/
theorem PagesRun.exchanges
    (h : PagesRun formats apiBase repository server decode id etag turns index url gathered s result s') :
    ∃ xs, s'.sent = s.sent ++ xs ∧ (∀ x ∈ xs, FitsIn id etag index url x) ∧
      ((∃ rateLimit, result = .ok (.notModified rateLimit)) ↔
        ∃ x ∈ xs, x.reply.isNotModified = true) := by
  induction h with
  | exhausted => exact ⟨[], (List.append_nil _).symm, by simp, by simp⟩
  | unsent error => exact ⟨[], (List.append_nil _).symm, by simp, by simp⟩
  | failed error hlimit hreply =>
    refine ⟨[_], rfl, by simpa using fitsIn_exchange, ?_⟩
    simp [exchange, hreply]
  | notModified rateLimit hlimit hreply =>
    refine ⟨[_], rfl, by simpa using fitsIn_exchange, ?_⟩
    simp [exchange, hreply]
  | last hlimit hpage hrecords =>
    refine ⟨[_], rfl, by simpa using fitsIn_exchange, ?_⟩
    have hreply := isNotModified_eq_false hpage (by simp)
    simp [exchange, hreply]
  | @next turns index url gathered s items link pageEtag rateLimit url' result s' hlimit hpage hrecords
      hvalid hrest ih =>
    obtain ⟨xs, hsent, hfits, hiff⟩ := ih
    have hreply : (exchange server id etag index url s).reply.isNotModified = false :=
      isNotModified_eq_false hpage (by simp)
    refine ⟨exchange server id etag index url s :: xs, ?_, ?_, ?_⟩
    · rw [hsent, Session.sent_send, List.append_assoc, List.singleton_append]
    · exact List.forall_mem_cons.mpr ⟨fitsIn_exchange, fun x hx => (hfits x hx).succ⟩
    · rw [hiff, List.exists_mem_cons_iff, hreply]
      simp

/-- A collection is a run from its first page, or its path is none. -/
theorem collection_cases {initialPath : String}
    (hfound : collection formats apiBase repository server decode id initialPath etag s = (result, s')) :
    (result = .error .invalidPagination ∧ s' = s) ∨
      ∃ url, formats.joinUrl apiBase initialPath = some url ∧
        PagesRun formats apiBase repository server decode id etag maxPages 0 url .empty s result s' := by
  unfold collection at hfound
  cases hurl : formats.joinUrl apiBase initialPath with
  | none =>
    rw [hurl] at hfound
    cases hfound
    exact .inl ⟨rfl, rfl⟩
  | some url =>
    have hrun : PagesRun formats apiBase repository server decode id etag maxPages 0 url .empty s _ _ :=
      pagesRun_pagesFrom maxPages 0 url .empty s
    rw [hurl] at hfound
    rw [show pagesFrom .. = _ from hfound] at hrun
    exact .inr ⟨url, rfl, hrun⟩

/-- The exchanges of a collection. -/
theorem collection_exchanges {initialPath : String}
    (hfound : collection formats apiBase repository server decode id initialPath etag s = (result, s')) :
    ∃ xs, s'.sent = s.sent ++ xs ∧
      (∀ x ∈ xs, ∃ url, formats.joinUrl apiBase initialPath = some url ∧ FitsIn id etag 0 url x) ∧
      ((∃ rateLimit, result = .ok (.notModified rateLimit)) ↔
        ∃ x ∈ xs, x.reply.isNotModified = true) := by
  rcases collection_cases hfound with ⟨rfl, rfl⟩ | ⟨url, hurl, hrun⟩
  · exact ⟨[], (List.append_nil _).symm, by simp, by simp⟩
  · obtain ⟨xs, hsent, hfits, hiff⟩ := hrun.exchanges
    exact ⟨xs, hsent, fun x hx => ⟨url, hurl, hfits x hx⟩, hiff⟩

end Pages

/-! ### Synchronization -/

section Synchronize

variable {formats : Formats} {apiBase : Url} {repository : GitHubRepository} {server : Nat → Reply}
  {hash : String → String}

/-- An exchange of an issues collection, under the `ETag` of the stored cursor. -/
def AsksIssues (formats : Formats) (apiBase : Url) (repository : GitHubRepository)
    (cursor : Option String) (x : Exchange) : Prop :=
  ∃ stored url, decodeCursor formats cursor = .ok stored ∧
    formats.joinUrl apiBase (issuesPath repository) = some url ∧
    FitsIn .issues stored.issuesEtag 0 url x

/-- An exchange of the commits of a pull request, never conditional. -/
def AsksCommits (x : Exchange) : Prop := (∃ pull, x.collection = .commits pull) ∧ x.etag = none

theorem FitsIn.asksCommits {pull index : Nat} {url : Url} {x : Exchange}
    (h : FitsIn (.commits pull) none index url x) : AsksCommits x :=
  ⟨⟨pull, h.collection⟩, by rw [h.etag, ite_self]⟩

/-- The exchanges for the commits of one pull request. -/
theorem pull_exchanges {pull : Nat} {s s' : Session} {found : Except GitHubError (Collection ApiCommit)}
    (hfound : collection formats apiBase repository server formats.commits (.commits pull)
      (commitsPath repository pull) none s = (found, s')) :
    ∃ xs, s'.sent = s.sent ++ xs ∧ (∀ x ∈ xs, AsksCommits x) ∧
      ((∃ rateLimit, found = .ok (.notModified rateLimit)) ↔
        ∃ x ∈ xs, x.reply.isNotModified = true) := by
  obtain ⟨xs, hsent, hfits, hiff⟩ := collection_exchanges hfound
  refine ⟨xs, hsent, fun x hx => ?_, hiff⟩
  obtain ⟨url, -, hfit⟩ := hfits x hx
  exact hfit.asksCommits

/-- The exchanges for the issues. -/
theorem issues_exchanges {cursor : Option String} {stored : GitHubCursor} {s : Session}
    {found : Except GitHubError (Collection ApiItem)}
    (hcursor : decodeCursor formats cursor = .ok stored)
    (hfound : collection formats apiBase repository server formats.items .issues
      (issuesPath repository) stored.issuesEtag .start = (found, s)) :
    ∃ xs, s.sent = xs ∧ (∀ x ∈ xs, AsksIssues formats apiBase repository cursor x) ∧
      ((∃ rateLimit, found = .ok (.notModified rateLimit)) ↔
        ∃ x ∈ xs, x.reply.isNotModified = true) := by
  obtain ⟨xs, hsent, hfits, hiff⟩ := collection_exchanges hfound
  refine ⟨xs, hsent, fun x hx => ?_, hiff⟩
  obtain ⟨url, hurl, hfit⟩ := hfits x hx
  exact ⟨stored, url, hcursor, hurl, hfit⟩

/-- A run of the loop over the pull requests: one collection of commits after the other. -/
inductive PullsRun (formats : Formats) (apiBase : Url) (repository : GitHubRepository)
    (server : Nat → Reply) : (Nat → List ApiCommit) → RateLimit → List ApiItem → Session →
      Outcome ((Nat → List ApiCommit) × RateLimit) → Session → Prop where
  | done {commits rateLimit s} :
      PullsRun formats apiBase repository server commits rateLimit [] s (.ok (commits, rateLimit)) s
  | failed {commits rateLimit item rest s error s'}
      (hfound : collection formats apiBase repository server formats.commits (.commits item.number)
        (commitsPath repository item.number) none s = (.error error, s')) :
      PullsRun formats apiBase repository server commits rateLimit (item :: rest) s (.error error) s'
  | panicked {commits rateLimit item rest s pullRate s'}
      (hfound : collection formats apiBase repository server formats.commits (.commits item.number)
        (commitsPath repository item.number) none s = (.ok (.notModified pullRate), s')) :
      PullsRun formats apiBase repository server commits rateLimit (item :: rest) s
        (.panicked "commit collections are not conditional") s'
  | next {commits rateLimit item rest s gathered s' outcome s''}
      (hfound : collection formats apiBase repository server formats.commits (.commits item.number)
        (commitsPath repository item.number) none s = (.ok (.updated gathered), s'))
      (hrest : PullsRun formats apiBase repository server
        (fun number => if number = item.number then gathered.items else commits number)
        (mergeRateLimit rateLimit gathered.rateLimit) rest s' outcome s'') :
      PullsRun formats apiBase repository server commits rateLimit (item :: rest) s outcome s''

theorem pullsRun_pullCommits (commits : Nat → List ApiCommit) (rateLimit : RateLimit)
    (pulls : List ApiItem) (s : Session) :
    PullsRun formats apiBase repository server commits rateLimit pulls s
      (pullCommits formats apiBase repository server commits rateLimit pulls s).1
      (pullCommits formats apiBase repository server commits rateLimit pulls s).2 := by
  induction pulls generalizing commits rateLimit s with
  | nil => exact .done
  | cons item rest ih =>
    unfold pullCommits
    rcases hfound : collection formats apiBase repository server formats.commits
      (.commits item.number) (commitsPath repository item.number) none s with ⟨found, s'⟩
    cases found with
    | error error => exact .failed hfound
    | ok found =>
      cases found with
      | notModified pullRate => exact .panicked hfound
      | updated gathered => exact .next hfound (ih ..)

/-- A run of a synchronization: the issues first, then the commits of the pull requests. -/
inductive SyncRun (formats : Formats) (apiBase : Url) (repository : GitHubRepository)
    (server : Nat → Reply) (hash : String → String) (cursor : Option String) :
    Outcome GitHubSyncOutcome → Session → Prop where
  | invalid (error : GitHubError) :
      SyncRun formats apiBase repository server hash cursor (.error error) .start
  | failed {stored error s} (hcursor : decodeCursor formats cursor = .ok stored)
      (hfound : collection formats apiBase repository server formats.items .issues
        (issuesPath repository) stored.issuesEtag .start = (.error error, s)) :
      SyncRun formats apiBase repository server hash cursor (.error error) s
  | notModified {stored rateLimit s} (hcursor : decodeCursor formats cursor = .ok stored)
      (hfound : collection formats apiBase repository server formats.items .issues
        (issuesPath repository) stored.issuesEtag .start = (.ok (.notModified rateLimit), s)) :
      SyncRun formats apiBase repository server hash cursor (.ok (.notModified stored rateLimit)) s
  /-- A panic among the pull requests is one of the synchronization, and so is an error. -/
  | updated {stored gathered s outcome s' result} (hcursor : decodeCursor formats cursor = .ok stored)
      (hfound : collection formats apiBase repository server formats.items .issues
        (issuesPath repository) stored.issuesEtag .start = (.ok (.updated gathered), s))
      (hpulls : PullsRun formats apiBase repository server (fun _ => []) gathered.rateLimit
        (gathered.items.filter (·.isPull)) s outcome s')
      (hresult : result = match outcome with
        | .error error => .error error
        | .panicked message => .panicked message
        | .ok (commits, rateLimit) => .ok (.updated
            ⟨buildEvidence hash repository gathered.items commits, ⟨gathered.etag⟩, rateLimit⟩)) :
      SyncRun formats apiBase repository server hash cursor result s'

variable (formats apiBase repository server hash) in
theorem syncRun_synchronize (cursor : Option String) :
    SyncRun formats apiBase repository server hash cursor
      (synchronize formats apiBase repository server hash cursor).1
      (synchronize formats apiBase repository server hash cursor).2 := by
  unfold synchronize
  cases hcursor : decodeCursor formats cursor with
  | error error => exact .invalid error
  | ok stored =>
    dsimp only
    rcases hfound : collection formats apiBase repository server formats.items .issues
      (issuesPath repository) stored.issuesEtag .start with ⟨found, s⟩
    cases found with
    | error error => exact .failed hcursor hfound
    | ok found =>
      cases found with
      | notModified rateLimit => exact .notModified hcursor hfound
      | updated gathered =>
        have hpulls := @pullsRun_pullCommits formats apiBase repository server (fun _ => [])
          gathered.rateLimit (gathered.items.filter (·.isPull)) s
        dsimp only
        rcases houtcome : pullCommits formats apiBase repository server (fun _ => [])
          gathered.rateLimit (gathered.items.filter (·.isPull)) s with ⟨outcome, s'⟩
        rw [houtcome] at hpulls
        cases outcome <;> exact .updated hcursor hfound hpulls rfl

/-- The loop over the pull requests panics exactly when a page is answered 304. -/
theorem PullsRun.exchanges {commits : Nat → List ApiCommit} {rateLimit : RateLimit}
    {pulls : List ApiItem} {s s' : Session} {outcome : Outcome ((Nat → List ApiCommit) × RateLimit)}
    (h : PullsRun formats apiBase repository server commits rateLimit pulls s outcome s') :
    ∃ xs, s'.sent = s.sent ++ xs ∧ (∀ x ∈ xs, AsksCommits x) ∧
      ((∃ message, outcome = .panicked message) ↔ ∃ x ∈ xs, x.reply.isNotModified = true) := by
  induction h with
  | done => exact ⟨[], (List.append_nil _).symm, by simp, by simp⟩
  | failed hfound =>
    obtain ⟨xs, hsent, hasks, hiff⟩ := pull_exchanges hfound
    exact ⟨xs, hsent, hasks, by simpa using hiff⟩
  | panicked hfound =>
    obtain ⟨xs, hsent, hasks, hiff⟩ := pull_exchanges hfound
    exact ⟨xs, hsent, hasks, by simpa using hiff⟩
  | next hfound hrest ih =>
    obtain ⟨xs, hsent, hasks, hiff⟩ := pull_exchanges hfound
    obtain ⟨ys, hsent', hasks', hiff'⟩ := ih
    -- no page of this pull request is answered 304
    have hnone : ¬ ∃ x ∈ xs, x.reply.isNotModified = true := by
      rw [← hiff]
      simp
    refine ⟨xs ++ ys, by rw [hsent', hsent, List.append_assoc], fun x hx => ?_, ?_⟩
    · exact (List.mem_append.mp hx).elim (hasks x) (hasks' x)
    · rw [hiff']
      simp only [List.mem_append, or_and_right, exists_or]
      exact ⟨Or.inr, fun h => h.resolve_left hnone⟩

/-- **The exchanges of a synchronization**: those for the issues, then those for commits. -/
theorem SyncRun.exchanges {cursor : Option String} {result : Outcome GitHubSyncOutcome} {s : Session}
    (h : SyncRun formats apiBase repository server hash cursor result s) :
    ∃ issues commits, s.sent = issues ++ commits ∧
      (∀ x ∈ issues, AsksIssues formats apiBase repository cursor x) ∧
      (∀ x ∈ commits, AsksCommits x) ∧
      ((∃ stored rateLimit, result = .ok (.notModified stored rateLimit)) ↔
        ∃ x ∈ issues, x.reply.isNotModified = true) ∧
      ((∃ message, result = .panicked message) ↔ ∃ x ∈ commits, x.reply.isNotModified = true) := by
  cases h with
  | invalid error => exact ⟨[], [], rfl, by simp, by simp, by simp, by simp⟩
  | failed hcursor hfound =>
    obtain ⟨xs, hsent, hasks, hiff⟩ := issues_exchanges hcursor hfound
    exact ⟨xs, [], by simpa using hsent, hasks, by simp, by simpa using hiff, by simp⟩
  | notModified hcursor hfound =>
    obtain ⟨xs, hsent, hasks, hiff⟩ := issues_exchanges hcursor hfound
    exact ⟨xs, [], by simpa using hsent, hasks, by simp, by simpa using hiff, by simp⟩
  | @updated stored gathered s outcome s' result hcursor hfound hpulls hresult =>
    obtain ⟨xs, hsent, hasks, hiff⟩ := issues_exchanges hcursor hfound
    obtain ⟨ys, hsent', hasks', hiff'⟩ := hpulls.exchanges
    refine ⟨xs, ys, by rw [hsent', hsent], hasks, hasks', ?_, ?_⟩
    · cases outcome <;> simpa [hresult] using hiff
    · cases outcome <;> simpa [hresult] using hiff'

/-- **No panic**: a synchronization returns, unless a page of commits is answered 304. -/
theorem synchronize_returns_iff (cursor : Option String) :
    (∀ message, (synchronize formats apiBase repository server hash cursor).1 ≠ .panicked message) ↔
      ∀ x ∈ (synchronize formats apiBase repository server hash cursor).2.sent,
        ∀ pull, x.collection = .commits pull → x.reply.isNotModified = false := by
  obtain ⟨issues, commits, hsent, hissues, hcommits, -, hpanicked⟩ :=
    (syncRun_synchronize formats apiBase repository server hash cursor).exchanges
  rw [hsent]
  constructor
  · intro hreturns x hx pull hpull
    have hnone : ¬ ∃ x ∈ commits, x.reply.isNotModified = true := by
      rw [← hpanicked]
      rintro ⟨message, heq⟩
      exact hreturns message heq
    rcases List.mem_append.mp hx with hx | hx
    · obtain ⟨stored, url, -, -, hfit⟩ := hissues x hx
      rw [hfit.collection] at hpull
      exact nomatch hpull
    · exact Bool.eq_false_iff.mpr fun hreply => hnone ⟨x, hx, hreply⟩
  · intro hnone message heq
    obtain ⟨x, hx, hreply⟩ := hpanicked.mp ⟨message, heq⟩
    obtain ⟨⟨pull, hpull⟩, -⟩ := hcommits x hx
    rw [hnone x (List.mem_append.mpr (.inr hx)) pull hpull] at hreply
    exact nomatch hreply

end Synchronize

/-- The octets of an ASCII text. -/
def asciiBytes (text : String) : List UInt8 := text.toList.map fun c => UInt8.ofNat c.toNat

/-- `https://api.github.com/`. -/
def sampleApiBase : Url :=
  ⟨"https://api.github.com/", "https", some "api.github.com", some 443, "", none, "/"⟩

/-- A relative path under a base that ends with a slash. -/
def sampleJoin (base : Url) (relative : String) : Url :=
  { base with
    text := base.text ++ relative
    path := base.path ++ String.ofList (relative.toList.takeWhile (· ≠ '?')) }

/-- A page with one pull request. -/
def samplePage : String :=
  "[\x7b\"number\":1,\"html_url\":\"\",\"pull_request\":\x7b\"url\":\"\"\x7d\x7d]"

/-- The formats on the texts of the samples. -/
def sampleFormats : Formats where
  parseUrl text := (stripPrefix sampleApiBase.text.toList text.toList).map fun relative =>
    sampleJoin sampleApiBase (String.ofList relative)
  joinUrl base relative := some (sampleJoin base relative)
  items body :=
    if body = asciiBytes samplePage then some [⟨1, none, "", true⟩]
    else if body = asciiBytes "[]" then some [] else none
  commits body := if body = asciiBytes "[]" then some [] else none
  cursor text :=
    if text = "\x7b\"issues_etag\":null\x7d" then some ⟨none⟩
    else if text = "\x7b\"issues_etag\":\"v1\"\x7d" then some ⟨some "v1"⟩ else none

/-- A pull request, and every further request is answered 304. -/
def unconditionalServer : Nat → Reply
  | 0 => .response ⟨200, [], [.bytes (asciiBytes samplePage)]⟩
  | _ + 1 => .response ⟨304, [], []⟩

set_option maxRecDepth 2000 in
theorem synchronize_panics :
    ¬ ∀ message, (synchronize sampleFormats sampleApiBase ⟨"acme", "widget"⟩ unconditionalServer id
      none).1 ≠ .panicked message :=
  fun h => h "commit collections are not conditional" rfl

end Rationale.GitHub
