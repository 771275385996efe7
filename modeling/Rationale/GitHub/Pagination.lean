import Rationale.GitHub.FetchRun
import Rationale.GitHub.LinkHeader

namespace Rationale.GitHub

open Rationale.Text

/-!
# Pagination

Whether a collection that is reported as updated is all of it.

* `Walk` — the pages from a URL on, each at the next link that the one before states;
* `Complete` — a collection is its whole walk within the limits, or an error;
* `Counted` — no more requests are sent than the counter allows;
* `collection_complete` — a collection whose replies are followable is complete, and a next link is
  followable exactly when it is read as stated;
* `synchronize_whole` — then the evidence of an update is that of all issues and all commits.

What the server states is given beside it: `links` has the link-values of every `Link` header of a
response.
-/

/-- The bytes of a body that arrives whole. -/
def wholeBody : List Chunk → Option (List UInt8)
  | [] => some []
  | .failed _ :: _ => none
  | .bytes chunk :: rest => (wholeBody rest).map (chunk ++ ·)

/-- A successful response with these items. -/
structure Holds {α : Type} (decode : List UInt8 → Option (List α)) (response : Response)
    (items : List α) : Prop where
  success : 200 ≤ response.status ∧ response.status < 300
  body : ∃ body, wholeBody response.body = some body ∧ decode body = some items

/-- The headers of a response are well-formed, and consist of these link-values. -/
def States (response : Response) (lines : List (List LinkValue)) : Prop :=
  List.Forall₂ Renders (linkLines response) lines

/-- A reply after which the walk goes on as the server states: not a 304, and with a next link that
    can be read when there is a page. -/
def Followable (links : Response → List (List LinkValue)) : Reply → Prop
  | .failed _ => True
  | .response response => response.status ≠ 304 ∧
      (200 ≤ response.status ∧ response.status < 300 → ReadableNext response (links response))

/-- No more is sent than was counted, and than may be. -/
structure Counted (s : Session) : Prop where
  requests : s.sent.length ≤ s.requests
  limit : s.sent.length ≤ maxRequests

theorem counted_start : Counted .start := ⟨le_rfl, Nat.zero_le _⟩

theorem Counted.send {s : Session} (h : Counted s) (hlimit : s.requests < maxRequests) (x : Exchange) :
    Counted (s.send x) where
  requests := by
    have hrequests := h.requests
    simp [hrequests]
  limit := by
    have hrequests := h.requests
    rw [Session.sent_send, List.length_append, List.length_singleton]
    omega

/-- The whole body is what is read of it within the limit. -/
theorem wholeBody_of_boundedBody {endpoint : String} {body read : List UInt8} {chunks : List Chunk}
    (h : boundedBody endpoint read chunks = .ok body) :
    ∃ rest, wholeBody chunks = some rest ∧ body = read ++ rest := by
  induction chunks generalizing read with
  | nil => exact ⟨[], rfl, by rw [List.append_nil]; exact (Except.ok.inj h).symm⟩
  | cons chunk chunks ih =>
    cases chunk with
    | failed category => exact nomatch h
    | bytes bytes =>
      rw [boundedBody] at h
      split at h
      · exact nomatch h
      · obtain ⟨rest, hwhole, rfl⟩ := ih h
        exact ⟨bytes ++ rest, by rw [wholeBody, hwhole, Option.map_some], List.append_assoc ..⟩

section Pages

variable {formats : Formats} {apiBase : Url} {repository : GitHubRepository} {server : Nat → Reply}
  {α : Type} {decode : List UInt8 → Option (List α)} {links : Response → List (List LinkValue)}

/-- A page that is read holds its items, and its next link is the scanned one. -/
theorem holds_of_pageOf {endpoint : String} {reply : Reply} {items : List α}
    {link pageEtag : Option String} {rateLimit : RateLimit}
    (h : pageOf decode endpoint reply = .ok (.updated items link pageEtag rateLimit)) :
    ∃ response, reply = .response response ∧ Holds decode response items ∧
      link = ((headerString response "link").bind nextLink).map String.ofList := by
  have hread := pageRead_pageOf decode endpoint reply
  rw [h] at hread
  cases hread with
  | @read response body items hsuccess hbody hitems =>
    obtain ⟨rest, hwhole, hrest⟩ := wholeBody_of_boundedBody hbody
    rw [hrest, List.nil_append] at hitems
    exact ⟨response, rfl, ⟨hsuccess, rest, hwhole, hitems⟩, rfl⟩

/-- The pages of a collection from an index and a URL on, and their items. -/
inductive Walk (formats : Formats) (apiBase : Url) (repository : GitHubRepository)
    (decode : List UInt8 → Option (List α)) (links : Response → List (List LinkValue)) :
    Nat → Url → List Exchange → List α → Prop where
  /-- A page without a next link. -/
  | last {index url x response items} (hpage : x.page = index) (hurl : x.url = url)
      (hreply : x.reply = .response response) (hitems : Holds decode response items)
      (hnext : statedNext (links response).flatten = none) :
      Walk formats apiBase repository decode links index url [x] items
  | next {index url x response items link url' rest restItems} (hpage : x.page = index)
      (hurl : x.url = url) (hreply : x.reply = .response response)
      (hitems : Holds decode response items)
      (hnext : statedNext (links response).flatten = some link)
      (hvalid : validateNext formats apiBase repository (String.ofList link) = .ok url')
      (hrest : Walk formats apiBase repository decode links (index + 1) url' rest restItems) :
      Walk formats apiBase repository decode links index url (x :: rest) (items ++ restItems)

/-- A walk comes to a page without a next link. -/
theorem Walk.ends {index : Nat} {url : Url} {xs : List Exchange} {items : List α}
    (h : Walk formats apiBase repository decode links index url xs items) :
    ∃ x ∈ xs, ∃ response, x.reply = .response response ∧
      statedNext (links response).flatten = none := by
  induction h with
  | last hpage hurl hreply hitems hnext => exact ⟨_, List.mem_cons_self, _, hreply, hnext⟩
  | next hpage hurl hreply hitems hnext hvalid hrest ih =>
    obtain ⟨x, hx, hends⟩ := ih
    exact ⟨x, List.mem_cons_of_mem _ hx, hends⟩

/-- The next link of a followable page is the stated one. -/
theorem statedNext_of_followable {response : Response} {items : List α} {link : Option String}
    (hstates : States response (links response)) (hitems : Holds decode response items)
    (hfollow : Followable links (.response response))
    (hlink : link = ((headerString response "link").bind nextLink).map String.ofList) :
    link = (statedNext (links response).flatten).map String.ofList := by
  rw [hlink, (nextLink_response_iff hstates).mpr (hfollow.2 hitems.success)]

variable {id : CollectionId} {etag : Option String} {turns index : Nat} {url : Url}
  {gathered : Gathered α} {s s' : Session} {result : Except GitHubError (Collection α)}

/-- A run keeps the counter. -/
theorem PagesRun.counted
    (h : PagesRun formats apiBase repository server decode id etag turns index url gathered s result s')
    (hs : Counted s) : Counted s' := by
  induction h with
  | exhausted => exact hs
  | unsent error => exact ⟨Nat.le_succ_of_le hs.requests, hs.limit⟩
  | failed error hlimit hreply => exact hs.send hlimit _
  | notModified rateLimit hlimit hreply => exact hs.send hlimit _
  | last hlimit hpage hrecords => exact hs.send hlimit _
  | next hlimit hpage hrecords hvalid hrest ih => exact ih (hs.send hlimit _)

/-- **A run over followable pages** reports the items of its whole walk. -/
theorem PagesRun.walk
    (h : PagesRun formats apiBase repository server decode id etag turns index url gathered s result s')
    (hstates : ∀ n response, server n = .response response → States response (links response)) :
    ∃ xs, s'.sent = s.sent ++ xs ∧ xs.length ≤ turns ∧
      ((∀ x ∈ xs, Followable links x.reply) → ∀ found, result = .ok (.updated found) →
        found.items.length ≤ maxRecords ∧
          ∃ items, Walk formats apiBase repository decode links index url xs items ∧
            found.items = gathered.items ++ items) := by
  induction h with
  | exhausted => exact ⟨[], (List.append_nil _).symm, le_rfl, fun _ found heq => nomatch heq⟩
  | unsent error =>
    exact ⟨[], (List.append_nil _).symm, Nat.zero_le _, fun _ found heq => nomatch heq⟩
  | failed error hlimit hreply =>
    exact ⟨[_], rfl, Nat.le_add_left 1 _, fun _ found heq => nomatch heq⟩
  | notModified rateLimit hlimit hreply =>
    exact ⟨[_], rfl, Nat.le_add_left 1 _, fun _ found heq => nomatch heq⟩
  | last hlimit hpage hrecords =>
    -- one exchange, whose response states no further page
    refine ⟨[_], rfl, Nat.le_add_left 1 _, fun hfollow found heq => ?_⟩
    obtain rfl : _ = found := Collection.updated.inj (Except.ok.inj heq)
    obtain ⟨response, hreply, hitems, hlink⟩ := holds_of_pageOf hpage
    have hfollowed : Followable links (server _) := hfollow _ List.mem_cons_self
    have hstated := statedNext_of_followable (hstates _ response hreply) hitems (hreply ▸ hfollowed)
      hlink
    refine ⟨hrecords, _, .last rfl rfl hreply hitems ?_, rfl⟩
    exact Option.map_eq_none_iff.mp hstated.symm
  | @next turns index url gathered s items link pageEtag rateLimit url' result s' hlimit hpage hrecords
      hvalid hrest ih =>
    -- the walk of the other pages begins at the stated one
    obtain ⟨xs, hsent, hlength, hwalk⟩ := ih
    refine ⟨exchange server id etag index url s :: xs, ?_, Nat.succ_le_succ hlength, ?_⟩
    · rw [hsent, Session.sent_send, List.append_assoc, List.singleton_append]
    · intro hfollow found heq
      obtain ⟨hfollowed, hrestfollow⟩ := List.forall_mem_cons.mp hfollow
      obtain ⟨hfound, restItems, hrestwalk, hitems'⟩ := hwalk hrestfollow found heq
      obtain ⟨response, hreply, hitems, hlink⟩ := holds_of_pageOf hpage
      rw [show (exchange server id etag index url s).reply = _ from hreply] at hfollowed
      have hstated := statedNext_of_followable (hstates _ response hreply) hitems hfollowed hlink
      obtain ⟨uri, huri, rfl⟩ := Option.map_eq_some_iff.mp hstated.symm
      refine ⟨hfound, items ++ restItems, .next rfl rfl hreply hitems huri hvalid hrestwalk, ?_⟩
      rw [hitems']
      show gathered.items ++ items ++ restItems = _
      rw [List.append_assoc]

/-- A collection is the items of all its pages, within the limits, or an error. -/
structure Complete (formats : Formats) (apiBase : Url) (repository : GitHubRepository)
    (decode : List UInt8 → Option (List α)) (links : Response → List (List LinkValue))
    (initialPath : String) (xs : List Exchange) (result : Except GitHubError (Collection α)) :
    Prop where
  updated : ∀ found, result = .ok (.updated found) →
    ∃ url, formats.joinUrl apiBase initialPath = some url ∧
      Walk formats apiBase repository decode links 0 url xs found.items ∧
        xs.length ≤ maxPages ∧ found.items.length ≤ maxRecords
  otherwise : (∃ found, result = .ok (.updated found)) ∨ ∃ error, result = .error error

theorem Followable.isNotModified {reply : Reply} (h : Followable links reply) :
    reply.isNotModified = false := by
  cases reply with
  | failed category => rfl
  | response response => exact decide_eq_false h.1

/-- A collection keeps the counter. -/
theorem Counted.collection {initialPath : String} {found : Except GitHubError (Collection α)}
    (hs : Counted s)
    (hfound : collection formats apiBase repository server decode id initialPath etag s = (found, s')) :
    Counted s' := by
  rcases collection_cases hfound with ⟨-, rfl⟩ | ⟨url, -, hrun⟩
  · exact hs
  · exact hrun.counted hs

end Pages

section Synchronize

variable {formats : Formats} {apiBase : Url} {repository : GitHubRepository} {server : Nat → Reply}

theorem PullsRun.counted {commits : Nat → List ApiCommit} {rateLimit : RateLimit} {pulls : List ApiItem}
    {s s' : Session} {outcome : Outcome ((Nat → List ApiCommit) × RateLimit)}
    (h : PullsRun formats apiBase repository server commits rateLimit pulls s outcome s')
    (hs : Counted s) : Counted s' := by
  induction h with
  | done => exact hs
  | failed hfound => exact hs.collection hfound
  | panicked hfound => exact hs.collection hfound
  | next hfound hrest ih => exact ih (hs.collection hfound)

/-- No more requests are sent than the counter allows. -/
theorem SyncRun.counted {hash : String → String} {cursor : Option String}
    {result : Outcome GitHubSyncOutcome} {s : Session}
    (h : SyncRun formats apiBase repository server hash cursor result s) : Counted s := by
  cases h with
  | invalid error => exact counted_start
  | failed hcursor hfound => exact counted_start.collection hfound
  | notModified hcursor hfound => exact counted_start.collection hfound
  | updated hcursor hfound hpulls hresult =>
    exact hpulls.counted (counted_start.collection hfound)

end Synchronize

/-! ### Collections -/

section Collection

variable {formats : Formats} {apiBase : Url} {repository : GitHubRepository} {server : Nat → Reply}
  {α : Type} {decode : List UInt8 → Option (List α)} {links : Response → List (List LinkValue)}
  {id : CollectionId} {etag : Option String} {s : Session} {initialPath : String}

/-- A collection whose replies are all followable is complete. -/
theorem complete_of_followable {s' : Session} {result : Except GitHubError (Collection α)}
    (hstates : ∀ n response, server n = .response response → States response (links response))
    (hfound : collection formats apiBase repository server decode id initialPath etag s = (result, s')) :
    ∃ xs, s'.sent = s.sent ++ xs ∧
      ((∀ x ∈ xs, Followable links x.reply) →
        Complete formats apiBase repository decode links initialPath xs result) := by
  rcases collection_cases hfound with ⟨rfl, rfl⟩ | ⟨url, hurl, hrun⟩
  · exact ⟨[], (List.append_nil _).symm, fun _ => ⟨fun found heq => (nomatch heq), .inr ⟨_, rfl⟩⟩⟩
  obtain ⟨xs, hsent, hlength, hwalk⟩ := hrun.walk hstates
  obtain ⟨ys, hsent', -, hnotModified⟩ := hrun.exchanges
  obtain rfl : xs = ys := List.append_cancel_left (hsent.symm.trans hsent')
  refine ⟨xs, hsent, fun hfollow => ⟨fun found heq => ?_, ?_⟩⟩
  · obtain ⟨hrecords, items, hitems, hgathered⟩ := hwalk hfollow found heq
    rw [show found.items = items from hgathered] at hrecords ⊢
    exact ⟨url, hurl, hitems, hlength, hrecords⟩
  · match result with
    | .error error => exact .inr ⟨error, rfl⟩
    | .ok (.updated found) => exact .inl ⟨found, rfl⟩
    | .ok (.notModified rateLimit) =>
      -- but no page was answered 304
      obtain ⟨x, hx, hreply⟩ := hnotModified.mp ⟨rateLimit, rfl⟩
      rw [(hfollow x hx).isNotModified] at hreply
      exact nomatch hreply

/-- These are the items of all pages of a collection. -/
def WholeCollection (formats : Formats) (apiBase : Url) (repository : GitHubRepository)
    (decode : List UInt8 → Option (List α)) (links : Response → List (List LinkValue))
    (initialPath : String) (items : List α) : Prop :=
  ∃ url xs, formats.joinUrl apiBase initialPath = some url ∧
    Walk formats apiBase repository decode links 0 url xs items

theorem Complete.whole {xs : List Exchange} {found : Gathered α}
    (h : Complete formats apiBase repository decode links initialPath xs (.ok (.updated found))) :
    WholeCollection formats apiBase repository decode links initialPath found.items := by
  obtain ⟨url, hurl, hwalk, -, -⟩ := h.updated found rfl
  exact ⟨url, xs, hurl, hwalk⟩

/-- The commits of every pull request are all of them. -/
theorem PullsRun.whole {commits commits' : Nat → List ApiCommit} {rateLimit rateLimit' : RateLimit}
    {pulls : List ApiItem} {s s' : Session} {outcome : Outcome ((Nat → List ApiCommit) × RateLimit)}
    (h : PullsRun formats apiBase repository server commits rateLimit pulls s outcome s')
    (hstates : ∀ n response, server n = .response response → States response (links response))
    (hfollow : ∀ x ∈ s'.sent, Followable links x.reply) (hok : outcome = .ok (commits', rateLimit')) :
    ∀ number, (number ∈ pulls.map (·.number) →
        WholeCollection formats apiBase repository formats.commits links
          (commitsPath repository number) (commits' number)) ∧
      (number ∉ pulls.map (·.number) → commits' number = commits number) := by
  induction h with
  | done =>
    cases hok
    simp
  | failed hfound => exact nomatch hok
  | panicked hfound => exact nomatch hok
  | @next commits rateLimit item rest s gathered s' outcome s'' hfound hrest ih =>
    intro number
    obtain ⟨hwhole, hkept⟩ := ih hfollow hok number
    by_cases hmem : number ∈ rest.map (·.number)
    · simp [hmem, hwhole hmem]
    by_cases hnumber : number = item.number
    · -- the last collection of this number
      obtain ⟨xs, hsent, hcomplete⟩ := complete_of_followable hstates hfound
      obtain ⟨ys, hsent', -⟩ := hrest.exchanges
      have hitems : commits' number = gathered.items := (hkept hmem).trans (if_pos hnumber)
      have hfollowed : ∀ x ∈ xs, Followable links x.reply := by
        intro x hx
        refine hfollow x ?_
        rw [hsent', hsent]
        simp [hx]
      rw [hitems, hnumber]
      simp [(hcomplete hfollowed).whole]
    · have hbefore : commits' number = commits number := (hkept hmem).trans (if_neg hnumber)
      simp [hmem, hnumber, hbefore]

/-- **The evidence of an update** is that of all issues and of all commits of every pull request. -/
theorem synchronize_whole {hash : String → String} {cursor : Option String} {evidence : GitHubEvidence}
    (hstates : ∀ n response, server n = .response response → States response (links response))
    (hfollow : ∀ x ∈ (synchronize formats apiBase repository server hash cursor).2.sent,
      Followable links x.reply)
    (hok : (synchronize formats apiBase repository server hash cursor).1 = .ok (.updated evidence)) :
    ∃ items commits, WholeCollection formats apiBase repository formats.items links
        (issuesPath repository) items ∧
      (∀ item ∈ items, item.isPull = true →
        WholeCollection formats apiBase repository formats.commits links
          (commitsPath repository item.number) (commits item.number)) ∧
      evidence.contribution = buildEvidence hash repository items commits := by
  have hrun := syncRun_synchronize formats apiBase repository server hash cursor
  rw [hok] at hrun
  generalize (synchronize formats apiBase repository server hash cursor).2 = s at hrun hfollow
  cases hrun with
  | @updated stored gathered s outcome s' result hcursor hfound hpulls hresult =>
    match outcome with
    | .error error => exact nomatch hresult
    | .panicked message => exact nomatch hresult
    | .ok (commits, rateLimit) =>
      cases hresult
      obtain ⟨xs, hsent, hcomplete⟩ := complete_of_followable hstates hfound
      obtain ⟨ys, hsent', -⟩ := hpulls.exchanges
      have hfollowed : ∀ x ∈ xs, Followable links x.reply := by
        intro x hx
        refine hfollow x ?_
        rw [hsent', hsent]
        simp [hx]
      refine ⟨gathered.items, commits, (hcomplete hfollowed).whole, fun item hitem hpull => ?_, rfl⟩
      refine (hpulls.whole hstates hfollow rfl item.number).1 ?_
      exact List.mem_map_of_mem (List.mem_filter.mpr ⟨hitem, hpull⟩)

/-- **Pagination**: a collection is complete or fails when every reply is followable; a next link is
    read as it is stated exactly when it is readable; and the requests never exceed their limit. -/
theorem collection_complete
    (hstates : ∀ n response, server n = .response response → States response (links response)) :
    (∃ xs, (collection formats apiBase repository server decode id initialPath etag s).2.sent =
        s.sent ++ xs ∧
      ((∀ x ∈ xs, Followable links x.reply) →
        Complete formats apiBase repository decode links initialPath xs
          (collection formats apiBase repository server decode id initialPath etag s).1)) ∧
    (∀ n response, server n = .response response →
      ((headerString response "link").bind nextLink = statedNext (links response).flatten ↔
        ReadableNext response (links response))) ∧
    (Counted s →
      Counted (collection formats apiBase repository server decode id initialPath etag s).2) ∧
    ∀ hash cursor, Counted (synchronize formats apiBase repository server hash cursor).2 :=
  ⟨complete_of_followable hstates rfl, fun n response hreply => nextLink_response_iff (hstates n response hreply),
    fun hs => hs.collection rfl,
    fun hash cursor => (syncRun_synchronize formats apiBase repository server hash cursor).counted⟩

end Collection

/-- The header of one link-value. -/
theorem renders_text (link : LinkValue) : Renders link.text [link] := by
  have hblank : Blank [] := fun c hc => absurd hc List.not_mem_nil
  have hrenders := Renders.single link hblank hblank
  rwa [List.nil_append, List.append_nil] at hrenders

/-- A second page of issues. -/
def sampleNext : LinkValue :=
  ⟨"https://api.github.com/repos/acme/widget/issues?page=2".toList, "next".toList, by decide, by decide⟩

/-- Two pages, the first with a link to the second. -/
def pagedServer : Nat → Reply
  | 0 => .response ⟨200, [("link", sampleNext.text)], [.bytes (asciiBytes samplePage)]⟩
  | _ + 1 => .response ⟨200, [], [.bytes (asciiBytes "[]")]⟩

def pagedLinks (response : Response) : List (List LinkValue) :=
  if response.headers = [] then [] else [[sampleNext]]

theorem states_pagedServer (n : Nat) (response : Response) (h : pagedServer n = .response response) :
    States response (pagedLinks response) := by
  cases n with
  | zero =>
    cases h
    exact .cons (renders_text sampleNext) .nil
  | succ n =>
    cases h
    exact .nil

set_option maxRecDepth 4000 in
theorem followable_pagedServer (n : Nat) : Followable pagedLinks (pagedServer n) := by
  cases n with
  | zero =>
    refine ⟨by decide, fun _ => (nextLink_response_iff (states_pagedServer 0 _ rfl)).mp rfl⟩
  | succ n =>
    refine ⟨by decide, fun _ => (nextLink_response_iff (states_pagedServer (n + 1) _ rfl)).mp rfl⟩

set_option maxRecDepth 4000 in
theorem collection_complete_paged :
    ∃ xs, (collection sampleFormats sampleApiBase ⟨"acme", "widget"⟩ pagedServer sampleFormats.items
        .issues (issuesPath ⟨"acme", "widget"⟩) none .start).2.sent = xs ∧ xs.length = 2 ∧
      Complete sampleFormats sampleApiBase ⟨"acme", "widget"⟩ sampleFormats.items pagedLinks
        (issuesPath ⟨"acme", "widget"⟩) xs
        (collection sampleFormats sampleApiBase ⟨"acme", "widget"⟩ pagedServer sampleFormats.items
          .issues (issuesPath ⟨"acme", "widget"⟩) none .start).1 := by
  obtain ⟨⟨xs, hsent, hcomplete⟩, -⟩ := @collection_complete sampleFormats sampleApiBase
    ⟨"acme", "widget"⟩ pagedServer _ sampleFormats.items pagedLinks .issues none .start
    (issuesPath ⟨"acme", "widget"⟩) states_pagedServer
  have hreplies : xs.map (·.reply) = [pagedServer 0, pagedServer 1] :=
    congrArg (List.map (·.reply)) hsent.symm
  refine ⟨xs, hsent, by simpa using congrArg List.length hreplies, hcomplete fun x hx => ?_⟩
  have hreply : x.reply ∈ [pagedServer 0, pagedServer 1] := hreplies ▸ List.mem_map_of_mem hx
  rcases List.mem_cons.mp hreply with heq | hreply
  · exact heq ▸ followable_pagedServer 0
  · exact List.mem_singleton.mp hreply ▸ followable_pagedServer 1

/-- A next link with a comma. -/
def commaNext : LinkValue :=
  ⟨"https://api.github.com/repos/acme/widget/issues?labels=a,b&page=2".toList, "next".toList,
    by decide, by decide⟩

def commaServer (_ : Nat) : Reply :=
  .response ⟨200, [("link", commaNext.text)], [.bytes (asciiBytes "[]")]⟩

def commaLinks (_ : Response) : List (List LinkValue) := [[commaNext]]

set_option maxRecDepth 4000 in
/-- The first page is reported as the whole collection. -/
theorem not_complete_comma :
    (∀ n response, commaServer n = .response response → States response (commaLinks response)) ∧
      ¬ ∃ xs, (collection sampleFormats sampleApiBase ⟨"acme", "widget"⟩ commaServer
          sampleFormats.items .issues (issuesPath ⟨"acme", "widget"⟩) none .start).2.sent = xs ∧
        Complete sampleFormats sampleApiBase ⟨"acme", "widget"⟩ sampleFormats.items commaLinks
          (issuesPath ⟨"acme", "widget"⟩) xs
          (collection sampleFormats sampleApiBase ⟨"acme", "widget"⟩ commaServer
            sampleFormats.items .issues (issuesPath ⟨"acme", "widget"⟩) none .start).1 := by
  constructor
  · intro n response h
    cases h
    exact .cons (renders_text commaNext) .nil
  · rintro ⟨xs, hsent, hcomplete⟩
    obtain ⟨url, -, hwalk, -, -⟩ := hcomplete.updated ⟨[], none, RateLimit.default⟩ rfl
    -- but every reply states a next link
    obtain ⟨-, -, response, -, hnext⟩ := hwalk.ends
    exact nomatch hnext

end Rationale.GitHub
