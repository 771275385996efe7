import Rationale.GitHub.Pagination
import Rationale.GitHub.Remote

namespace Rationale.GitHub

open Rationale.Library Rationale.Text

/-!
# Where the requests of a synchronization go

Every request carries the token of the client, and the server chooses the next links.

* `withApiBase` — the client for an API base, `GitHubClient::with_api_base`;
* `Within` — a URL of the API base's origin, below the path of the repository;
* `validateNext_within`, `PagesRun.within` — one next link, and the loop over the pages;
* `synchronize_confined` — whatever the server replies, every request of a synchronization is within the
  repository of the remote, and only the first one for issues is conditional.
-/

/-! ### The client -/

/-- `Url::parse` of an API base, with what stands behind its path. -/
structure ParsedBase where
  url : Url
  query : Option String
  fragment : Option String

/-- What the URL crate computes of an API base. -/
structure BaseFormats where
  /-- `Url::parse`. -/
  parseBase : String → Option ParsedBase
  /-- `Url::set_path`. -/
  setPath : Url → String → Url

/-- A client: the header that goes with every request, and the API base. -/
structure GitHubClient where
  authorization : Option String
  apiBase : Url
  deriving DecidableEq, Repr

/-- The last check of an API base: its path ends with a slash. -/
def endsWithSlash (path : String) : Bool := path.toList.getLast? = some '/'

/-- `GitHubClient::with_api_base`; `none` is `GitHubError::ClientConfiguration`. -/
def withApiBase (base : BaseFormats) (apiBase : String) (token : Option String) : Option GitHubClient :=
  let authorization := token.map fun token => "Bearer " ++ String.ofList (trim token.toList)
  if authorization.any (fun value => !isHeaderValue value) then none
  else match base.parseBase apiBase with
  | none => none
  | some parsed =>
      if ¬ (parsed.url.scheme = "http" ∨ parsed.url.scheme = "https") ∨ parsed.url.hostStr = none ∨
          parsed.url.username ≠ "" ∨ parsed.url.password ≠ none ∨ parsed.query ≠ none ∨
          parsed.fragment ≠ none then none
      else if endsWithSlash parsed.url.path then some ⟨authorization, parsed.url⟩
      else some ⟨authorization, base.setPath parsed.url (parsed.url.path ++ "/")⟩

/-- Two URLs with the same parts before the path. -/
structure SameOrigin (url url' : Url) : Prop where
  scheme : url.scheme = url'.scheme
  hostStr : url.hostStr = url'.hostStr
  port : url.port = url'.port
  username : url.username = url'.username
  password : url.password = url'.password

/-- The path of a URL is set, and nothing else. -/
def SetsPath (base : BaseFormats) : Prop :=
  ∀ url, SameOrigin (base.setPath url (url.path ++ "/")) url ∧
    (base.setPath url (url.path ++ "/")).path = url.path ++ "/"

/-- What is checked of an API base. -/
structure Configured (apiBase : Url) : Prop where
  scheme : apiBase.scheme = "http" ∨ apiBase.scheme = "https"
  hostStr : apiBase.hostStr ≠ none
  username : apiBase.username = ""
  password : apiBase.password = none
  path : endsWithSlash apiBase.path = true

theorem withApiBase_configured {base : BaseFormats} {apiBase : String} {token : Option String}
    {client : GitHubClient} (hset : SetsPath base)
    (h : withApiBase base apiBase token = some client) : Configured client.apiBase := by
  unfold withApiBase at h
  dsimp only at h
  split at h
  · exact absurd h (by simp)
  split at h
  · exact absurd h (by simp)
  next parsed hparsed =>
  split at h
  · exact absurd h (by simp)
  next hchecks =>
  obtain ⟨hweb, hparts⟩ := not_or.mp hchecks
  have hscheme : parsed.url.scheme = "http" ∨ parsed.url.scheme = "https" := not_not.mp hweb
  simp only [not_or, not_not] at hparts
  obtain ⟨hhost, husername, hpassword, -, -⟩ := hparts
  split at h
  · next hslash =>
    obtain rfl := Option.some.inj h
    exact ⟨hscheme, hhost, husername, hpassword, hslash⟩
  · obtain rfl := Option.some.inj h
    obtain ⟨horigin, hpath⟩ := hset parsed.url
    refine ⟨?_, ?_, ?_, ?_, ?_⟩
    · rw [horigin.scheme]
      exact hscheme
    · rw [horigin.hostStr]
      exact hhost
    · rw [horigin.username]
      exact husername
    · rw [horigin.password]
      exact hpassword
    · rw [hpath]
      simp [endsWithSlash]

/-! ### Relative paths -/

/-- Components with slashes between them, and nothing that a join resolves. -/
def PlainPath (path : List Char) : Prop :=
  ∃ parts last, path = terminated '/' parts ++ last ∧ (∀ part ∈ parts, validComponent part = true) ∧
    (last = [] ∨ validComponent last = true)

/-- The path of a relative reference. -/
def pathPart (relative : String) : List Char := relative.toList.takeWhile (· ≠ '?')

/-- A plain path is put behind the path of a base that ends with a slash. -/
def JoinsPlain (formats : Formats) : Prop :=
  ∀ base relative url, Configured base → PlainPath (pathPart relative) →
    formats.joinUrl base relative = some url →
      SameOrigin url base ∧ url.path.toList = base.path.toList ++ pathPart relative

/-- A repository with valid components. -/
structure ValidRepository (repository : GitHubRepository) : Prop where
  owner : validComponent repository.owner.toList = true
  name : validComponent repository.name.toList = true

theorem fromRemote_valid {remote : String} {repository : GitHubRepository}
    (h : fromRemote remote = .ok repository) : ValidRepository repository := by
  obtain ⟨_, _, owner, name, _, howner, hname, _, _, rfl⟩ := fromRemote_eq_ok_iff_body.mp h
  unfold identity
  refine ⟨?_, ?_⟩
  · rw [String.toList_ofList]
    exact validComponent_lowercase howner
  · rw [String.toList_ofList]
    exact validComponent_lowercase hname

/-- The components of the repository's path. -/
def scopeParts (repository : GitHubRepository) : List (List Char) :=
  ["repos".toList, repository.owner.toList, repository.name.toList]

theorem scope_toList (repository : GitHubRepository) :
    ("repos/" ++ repository.slug ++ "/").toList = terminated '/' (scopeParts repository) := by
  simp [GitHubRepository.slug, terminated, scopeParts]

/-- A URL of the API base's origin, without credentials, below the path of the repository. -/
structure Within (apiBase : Url) (repository : GitHubRepository) (url : Url) : Prop where
  scheme : url.scheme = apiBase.scheme
  hostStr : url.hostStr = apiBase.hostStr
  port : url.port = apiBase.port
  username : url.username = ""
  password : url.password = none
  path : (apiBase.path ++ "repos/" ++ repository.slug ++ "/").toList <+: url.path.toList

section Requests

variable {formats : Formats} {apiBase url : Url} {repository : GitHubRepository}

/-- No query starts in a plain path. -/
theorem questionMark_notMem {parts : List (List Char)} {last : List Char}
    (hparts : ∀ part ∈ parts, validComponent part = true)
    (hlast : last = [] ∨ validComponent last = true) : '?' ∉ terminated '/' parts ++ last := by
  have hvalid : ∀ value : List Char, validComponent value = true → '?' ∉ value := by
    intro value hvalue hmem
    exact (isComponentChar_bounds ((validComponent_iff.mp hvalue).2.2.2 '?' hmem)).2.2.2.1 rfl
  rw [List.mem_append, not_or]
  refine ⟨?_, ?_⟩
  · intro hmem
    obtain ⟨part, hpart, hmem⟩ := List.mem_flatMap.mp hmem
    rcases List.mem_append.mp hmem with hmem | hmem
    · exact hvalid part (hparts part hpart) hmem
    · exact absurd (List.mem_singleton.mp hmem) (by decide)
  · rcases hlast with rfl | hlast
    · exact List.not_mem_nil
    · exact hvalid last hlast

/-- What is joined to the API base under the repository's path is within the repository. -/
theorem within_of_join {relative : String} {parts : List (List Char)} {last behind : List Char}
    (hjoin : JoinsPlain formats) (hbase : Configured apiBase) (hrepository : ValidRepository repository)
    (hrelative : relative.toList = terminated '/' (scopeParts repository ++ parts) ++ last ++ behind)
    (hparts : ∀ part ∈ parts, validComponent part = true)
    (hlast : last = [] ∨ validComponent last = true) (hbehind : behind = [] ∨ behind.head? = some '?')
    (hurl : formats.joinUrl apiBase relative = some url) : Within apiBase repository url := by
  have hvalid : ∀ part ∈ scopeParts repository ++ parts, validComponent part = true := by
    intro part hpart
    rcases List.mem_append.mp hpart with hpart | hpart
    · simp only [scopeParts, List.mem_cons, List.not_mem_nil, or_false] at hpart
      rcases hpart with rfl | rfl | rfl
      · decide
      · exact hrepository.owner
      · exact hrepository.name
    · exact hparts part hpart
  have hpath : pathPart relative = terminated '/' (scopeParts repository ++ parts) ++ last := by
    unfold pathPart
    rw [hrelative]
    have hmark := questionMark_notMem hvalid hlast
    rcases hbehind with rfl | hbehind
    · rw [List.append_nil]
      exact List.takeWhile_eq_self_iff.mpr fun c hc => by
        simpa using fun heq : c = '?' => hmark (heq ▸ hc)
    · obtain ⟨query, rfl⟩ := List.head?_eq_some_iff.mp hbehind
      exact takeWhile_ne_append hmark
  obtain ⟨horigin, happend⟩ := hjoin apiBase relative url hbase
    ⟨scopeParts repository ++ parts, last, hpath, hvalid, hlast⟩ hurl
  refine ⟨horigin.scheme, horigin.hostStr, horigin.port, ?_, ?_, ?_⟩
  · exact horigin.username.trans hbase.username
  · exact horigin.password.trans hbase.password
  · rw [happend, hpath, terminated_append, String.append_assoc, String.append_assoc,
      String.toList_append, ← String.append_assoc, scope_toList, List.append_assoc]
    exact List.prefix_append_right_inj _ |>.mpr (List.prefix_append _ _)

/-- The first page of issues. -/
theorem issues_within (hjoin : JoinsPlain formats) (hbase : Configured apiBase)
    (hrepository : ValidRepository repository)
    (hurl : formats.joinUrl apiBase (issuesPath repository) = some url) :
    Within apiBase repository url := by
  refine @within_of_join _ _ _ _ _ [] "issues".toList
    "?state=all&sort=updated&direction=desc&per_page=100".toList hjoin hbase hrepository ?_ (by simp)
    (Or.inr (by decide)) (Or.inr (by decide)) hurl
  rw [List.append_nil, ← scope_toList]
  simp [issuesPath]

/-- The digits of a number are a component. -/
theorem validComponent_number (number : Nat) : validComponent (toString number).toList = true := by
  have hdigits : (toString number).toList = Nat.toDigits 10 number := by
    simp [toString, Nat.repr]
  rw [hdigits]
  have hdigit : ∀ c ∈ Nat.toDigits 10 number, c.isDigit = true := by
    intro c hc
    exact Nat.isDigit_of_mem_toDigits (by decide) (by decide) hc
  refine validComponent_iff.mpr ⟨Nat.toDigits_ne_nil, ?_, ?_, fun c hc => ?_⟩
  · intro heq
    exact absurd (hdigit '.' (by simp [heq])) (by decide)
  · intro heq
    exact absurd (hdigit '.' (by simp [heq])) (by decide)
  · simp [isComponentChar, isAsciiAlphanumeric, Char.isAlphanum, hdigit c hc]

/-- The first page of a pull request's commits. -/
theorem commits_within {pull : Nat} (hjoin : JoinsPlain formats) (hbase : Configured apiBase)
    (hrepository : ValidRepository repository)
    (hurl : formats.joinUrl apiBase (commitsPath repository pull) = some url) :
    Within apiBase repository url := by
  refine @within_of_join _ _ _ _ _ ["pulls".toList, (toString pull).toList] "commits".toList
    "?per_page=100".toList hjoin hbase hrepository ?_ ?_ (Or.inr (by decide)) (Or.inr (by decide)) hurl
  · rw [terminated_append, ← scope_toList]
    simp [commitsPath, terminated]
  · intro part hpart
    rcases List.mem_pair.mp hpart with rfl | rfl
    · decide
    · exact validComponent_number pull

/-- **A next link** that is accepted is within the repository, whatever the server wrote. -/
theorem validateNext_within {link : String} (hjoin : JoinsPlain formats) (hbase : Configured apiBase)
    (hrepository : ValidRepository repository)
    (h : validateNext formats apiBase repository link = .ok url) : Within apiBase repository url := by
  unfold validateNext at h
  split at h
  · exact absurd h (by simp)
  next linked hparse =>
  split at h
  · exact absurd h (by simp)
  next scope hscope =>
  have hwithin : Within apiBase repository scope := by
    refine @within_of_join _ _ _ _ _ [] [] [] hjoin hbase hrepository ?_ (by simp) (Or.inl rfl)
      (Or.inl rfl) hscope
    rw [List.append_nil, List.append_nil, List.append_nil, scope_toList]
  dsimp only at h
  split at h
  · exact absurd h (by simp)
  next hchecks =>
  obtain rfl := Except.ok.inj h
  obtain ⟨horigin, hpath⟩ := not_or.mp hchecks
  obtain ⟨hscheme, hhost, hport, husername, hpassword⟩ := not_not.mp horigin
  exact ⟨hscheme.trans hwithin.scheme, hhost.trans hwithin.hostStr, hport.trans hwithin.port,
    husername, hpassword, hwithin.path.trans (not_not.mp hpath)⟩

end Requests

/-! ### Runs -/

section Runs

variable {formats : Formats} {apiBase : Url} {repository : GitHubRepository} {server : Nat → Reply}

/-- An exchange within the repository, for a page below the limit. -/
def Asked (apiBase : Url) (repository : GitHubRepository) (x : Exchange) : Prop :=
  Within apiBase repository x.url ∧ x.page < maxPages

/-- Every exchange of a session is one of another session, or was asked. -/
def AsksBeyond (apiBase : Url) (repository : GitHubRepository) (s s' : Session) : Prop :=
  ∀ x ∈ s'.sent, x ∈ s.sent ∨ Asked apiBase repository x

theorem AsksBeyond.refl (s : Session) : AsksBeyond apiBase repository s s := fun _ hx => Or.inl hx

theorem AsksBeyond.trans {s s' s'' : Session} (h : AsksBeyond apiBase repository s s')
    (h' : AsksBeyond apiBase repository s' s'') : AsksBeyond apiBase repository s s'' := by
  intro x hx
  rcases h' x hx with hx | hx
  · exact h x hx
  · exact Or.inr hx

theorem AsksBeyond.send {s : Session} {x : Exchange} (h : Asked apiBase repository x) :
    AsksBeyond apiBase repository s (s.send x) := by
  intro y hy
  rw [Session.sent_send, List.mem_append, List.mem_singleton] at hy
  rcases hy with hy | rfl
  · exact Or.inl hy
  · exact Or.inr h

section Pages

variable {α : Type} {decode : List UInt8 → Option (List α)} {id : CollectionId} {etag : Option String}
  {turns index : Nat} {url : Url} {gathered : Gathered α} {s s' : Session}
  {result : Except GitHubError (Collection α)}

theorem asked_exchange (hurl : Within apiBase repository url) (hindex : index < maxPages) :
    Asked apiBase repository (exchange server id etag index url s) :=
  ⟨hurl, hindex⟩

/-- **The loop** stays within the repository: a page's URL is that of the collection, or an accepted
    next link. -/
theorem PagesRun.asks
    (h : PagesRun formats apiBase repository server decode id etag turns index url gathered s result s')
    (hjoin : JoinsPlain formats) (hbase : Configured apiBase) (hrepository : ValidRepository repository)
    (hurl : Within apiBase repository url) (hturns : index + turns ≤ maxPages) :
    AsksBeyond apiBase repository s s' := by
  induction h with
  | exhausted => exact .refl _
  | unsent error => exact .refl _
  | failed error hlimit hreply => exact .send (asked_exchange hurl (by omega))
  | notModified rateLimit hlimit hreply => exact .send (asked_exchange hurl (by omega))
  | last hlimit hpage hrecords => exact .send (asked_exchange hurl (by omega))
  | next hlimit hpage hrecords hvalid hrest ih =>
    have hnext := validateNext_within hjoin hbase hrepository hvalid
    exact AsksBeyond.trans (.send (asked_exchange hurl (by omega))) (ih hnext (by omega))

/-- A collection stays within the repository when its first page does. -/
theorem collection_asks {initialPath : String}
    (hfound : collection formats apiBase repository server decode id initialPath etag s = (result, s'))
    (hjoin : JoinsPlain formats) (hbase : Configured apiBase) (hrepository : ValidRepository repository)
    (hfirst : ∀ url, formats.joinUrl apiBase initialPath = some url → Within apiBase repository url) :
    AsksBeyond apiBase repository s s' := by
  rcases collection_cases hfound with ⟨rfl, rfl⟩ | ⟨url, hurl, hrun⟩
  · exact .refl _
  · exact hrun.asks hjoin hbase hrepository (hfirst url hurl) (by omega)

end Pages

theorem PullsRun.asks {commits : Nat → List ApiCommit} {rateLimit : RateLimit} {pulls : List ApiItem}
    {s s' : Session} {outcome : Outcome ((Nat → List ApiCommit) × RateLimit)}
    (h : PullsRun formats apiBase repository server commits rateLimit pulls s outcome s')
    (hjoin : JoinsPlain formats) (hbase : Configured apiBase)
    (hrepository : ValidRepository repository) : AsksBeyond apiBase repository s s' := by
  have hpull : ∀ {pull : Nat} {found s s'}, collection formats apiBase repository server formats.commits
      (.commits pull) (commitsPath repository pull) none s = (found, s') →
      AsksBeyond apiBase repository s s' := by
    intro pull found s s' hfound
    exact collection_asks hfound hjoin hbase hrepository
      (fun url hurl => commits_within hjoin hbase hrepository hurl)
  induction h with
  | done => exact .refl _
  | failed hfound => exact hpull hfound
  | panicked hfound => exact hpull hfound
  | next hfound hrest ih => exact (hpull hfound).trans ih

theorem SyncRun.asks {hash : String → String} {cursor : Option String}
    {result : Outcome GitHubSyncOutcome} {s : Session}
    (h : SyncRun formats apiBase repository server hash cursor result s) (hjoin : JoinsPlain formats)
    (hbase : Configured apiBase) (hrepository : ValidRepository repository) :
    AsksBeyond apiBase repository .start s := by
  have hissues : ∀ {stored : GitHubCursor} {found s}, collection formats apiBase repository server
      formats.items .issues (issuesPath repository) stored.issuesEtag .start = (found, s) →
      AsksBeyond apiBase repository .start s := by
    intro stored found s hfound
    exact collection_asks hfound hjoin hbase hrepository
      (fun url hurl => issues_within hjoin hbase hrepository hurl)
  cases h with
  | invalid error => exact .refl _
  | failed hcursor hfound => exact hissues hfound
  | notModified hcursor hfound => exact hissues hfound
  | updated hcursor hfound hpulls hresult =>
    exact (hissues hfound).trans (hpulls.asks hjoin hbase hrepository)

/-- The only condition is the stored one, on the first page of issues. -/
theorem SyncRun.conditional {hash : String → String} {cursor : Option String}
    {result : Outcome GitHubSyncOutcome} {s : Session} {x : Exchange} {etag : String}
    (h : SyncRun formats apiBase repository server hash cursor result s) (hx : x ∈ s.sent)
    (hetag : x.etag = some etag) :
    x.collection = .issues ∧ x.page = 0 ∧ decodeCursor formats cursor = .ok ⟨some etag⟩ := by
  obtain ⟨issues, commits, hsent, hissues, hcommits, -, -⟩ := h.exchanges
  rw [hsent] at hx
  rcases List.mem_append.mp hx with hx | hx
  · obtain ⟨stored, url, hcursor, -, hfit⟩ := hissues x hx
    have hpage := hfit.etag
    rw [hetag] at hpage
    split at hpage
    · next hfirst =>
      obtain ⟨storedEtag⟩ := stored
      have hstored : some etag = storedEtag := hpage
      rw [← hstored] at hcursor
      exact ⟨hfit.collection, hfirst, hcursor⟩
    · exact absurd hpage (by simp)
  · rw [(hcommits x hx).2] at hetag
    exact absurd hetag (by simp)

/-- **Confinement.** Whatever the server replies and whatever cursor is stored, every request of a
    synchronization goes to the origin of the API base, without credentials in its URL, below the path
    of the remote's repository; there are boundedly many, and only the first request for issues is
    conditional, under the stored `ETag`. -/
theorem synchronize_confined {base : BaseFormats} {baseText remote : String}
    {token cursor : Option String} {client : GitHubClient} {hash : String → String}
    (hset : SetsPath base) (hjoin : JoinsPlain formats)
    (hclient : withApiBase base baseText token = some client)
    (hremote : fromRemote remote = .ok repository) :
    (synchronize formats client.apiBase repository server hash cursor).2.sent.length ≤ maxRequests ∧
      ∀ x ∈ (synchronize formats client.apiBase repository server hash cursor).2.sent,
        Within client.apiBase repository x.url ∧ x.page < maxPages ∧
          ∀ etag, x.etag = some etag → x.collection = .issues ∧ x.page = 0 ∧
            decodeCursor formats cursor = .ok ⟨some etag⟩ := by
  have hrun := syncRun_synchronize formats client.apiBase repository server hash cursor
  refine ⟨hrun.counted.limit, fun x hx => ?_⟩
  rcases hrun.asks hjoin (withApiBase_configured hset hclient) (fromRemote_valid hremote) x hx with h | h
  · exact absurd h List.not_mem_nil
  · exact ⟨h.1, h.2, fun etag hetag => hrun.conditional hx hetag⟩

end Runs

/-- The URL crate on `https://api.github.com/`. -/
def sampleBase : BaseFormats where
  parseBase text := if text = sampleApiBase.text then some ⟨sampleApiBase, none, none⟩ else none
  setPath url path := { url with path := path }

theorem joinsPlain_sample : JoinsPlain sampleFormats := by
  intro base relative url _ _ hurl
  obtain rfl := Option.some.inj hurl
  refine ⟨⟨rfl, rfl, rfl, rfl, rfl⟩, ?_⟩
  show (base.path ++ String.ofList (pathPart relative)).toList = _
  simp

theorem synchronize_confined_sample :
    (synchronize sampleFormats sampleApiBase ⟨"acme", "widget"⟩ unconditionalServer id
        (some "\x7b\"issues_etag\":\"v1\"\x7d")).2.sent.length ≤ maxRequests := by
  have hclient : withApiBase sampleBase "https://api.github.com/" (some "secret") =
      some ⟨some "Bearer secret", sampleApiBase⟩ := by decide
  have hremote : fromRemote "https://github.com/Acme/Widget.git" = .ok ⟨"acme", "widget"⟩ := by rfl
  have hset : SetsPath sampleBase := fun url => ⟨⟨rfl, rfl, rfl, rfl, rfl⟩, rfl⟩
  exact (synchronize_confined hset joinsPlain_sample hclient hremote).1

end Rationale.GitHub
