import Rationale.GitHub.FetchRun
import Rationale.Engine.Sync

namespace Rationale.Engine

open Rationale.GitHub

/-!
# Refreshing from GitHub

What the engine makes of an answer of the GitHub client, and when the server stands behind an answer
that nothing has changed.

* `Conveys` — the answer of the client, as the engine takes it;
* `ServerConfirms` — the first issues page, requested under the stored `ETag`, was answered 304;
* `confirmed_iff` — evidence is kept as fresh on the server's confirmation only, exactly when no
  request without `If-None-Match` is answered 304.
-/

/-- `GitHubRateLimitView::from`. -/
def rateLimitView (rateLimit : RateLimit) : GitHubRateLimitView :=
  ⟨rateLimit.limit, rateLimit.remaining, rateLimit.resetAt.map Int.ofNat⟩

/-- What the engine takes an outcome of the client for.  `encode` encodes a cursor. -/
inductive Conveys (hash : String → String) (encode : GitHubCursor → String)
    (repository : GitHubRepository) :
    Outcome GitHub.GitHubSyncOutcome → GitHubSyncOutcome → Prop where
  | updated (evidence : GitHubEvidence) (items : List ApiItem) (commits : Nat → List ApiCommit)
      (hcontribution : evidence.contribution = buildEvidence hash repository items commits) :
      Conveys hash encode repository (.ok (.updated evidence))
        (.updated items commits (encode evidence.cursor) (rateLimitView evidence.rateLimit))
  | notModified (cursor : GitHubCursor) (rateLimit : RateLimit) :
      Conveys hash encode repository (.ok (.notModified cursor rateLimit))
        (.notModified (rateLimitView rateLimit))
  | failed (error : GitHubError) : Conveys hash encode repository (.error error) .failed

/-- Evidence is kept as fresh only when the client reports an unchanged repository. -/
theorem Conveys.fresh {hash : String → String} {encode : GitHubCursor → String}
    {repository : GitHubRepository} {outcome : Outcome GitHub.GitHubSyncOutcome}
    {answer : GitHubSyncOutcome} {prior : PriorGitHubContribution} {now : String}
    (h : Conveys hash encode repository outcome answer)
    (hfresh : (githubSource prior repository now answer).freshness = .fresh) :
    (∃ evidence, outcome = .ok (.updated evidence)) ∨
      ∃ cursor rateLimit, outcome = .ok (.notModified cursor rateLimit) := by
  cases h with
  | updated evidence items commits hcontribution => exact .inl ⟨evidence, rfl⟩
  | notModified cursor rateLimit => exact .inr ⟨cursor, rateLimit, rfl⟩
  | failed error => exact nomatch hfresh

section Confirmation

variable (formats : Formats) (apiBase : Url) (repository : GitHubRepository) (server : Nat → Reply)
  (hash : String → String) (encode : GitHubCursor → String) (cursor : Option String)

/-- The stored cursor has an `ETag`, and the first issues page was requested with it and answered
    304. -/
def ServerConfirms (sent : List Exchange) : Prop :=
  ∃ stored etag url, decodeCursor formats cursor = .ok stored ∧ stored.issuesEtag = some etag ∧
    formats.joinUrl apiBase (issuesPath repository) = some url ∧
    ∃ x ∈ sent, x.collection = .issues ∧ x.page = 0 ∧ x.url = url ∧ x.etag = some etag ∧
      x.reply.isNotModified = true

/-- A synchronization under a stored cursor takes nothing for unchanged unless the server said so. -/
structure Confirmed : Prop where
  notModified : ∀ stored rateLimit,
    (synchronize formats apiBase repository server hash cursor).1 = .ok (.notModified stored rateLimit) →
      ServerConfirms formats apiBase repository cursor
        (synchronize formats apiBase repository server hash cursor).2.sent
  /-- A 304 that was not asked for. -/
  unasked : ∀ x ∈ (synchronize formats apiBase repository server hash cursor).2.sent,
    x.reply.isNotModified = true → (x.page ≠ 0 ∨ x.etag = none) →
      ∃ error, (synchronize formats apiBase repository server hash cursor).1 = .error error
  /-- What the engine keeps as fresh. -/
  fresh : ∀ prior now answer, prior.source.bind (·.cursor) = cursor →
    Conveys hash encode repository (synchronize formats apiBase repository server hash cursor).1 answer →
      (githubSource prior repository now answer).freshness = .fresh →
        (∃ evidence, (synchronize formats apiBase repository server hash cursor).1 =
          .ok (.updated evidence)) ∨
        ServerConfirms formats apiBase repository cursor
          (synchronize formats apiBase repository server hash cursor).2.sent

variable {formats apiBase repository server hash encode cursor}

/-- A conditional request is one for the first issues page. -/
theorem serverConfirms_of_asksIssues {sent : List Exchange} {x : Exchange} (hx : x ∈ sent)
    (hasks : AsksIssues formats apiBase repository cursor x) (hetag : x.etag ≠ none)
    (hreply : x.reply.isNotModified = true) :
    ServerConfirms formats apiBase repository cursor sent := by
  obtain ⟨stored, url, hstored, hurl, hfit⟩ := hasks
  have hpage : x.page = 0 := by
    by_contra hne
    exact hetag (by rw [hfit.etag, if_neg hne])
  have heq : x.etag = stored.issuesEtag := by rw [hfit.etag, if_pos hpage]
  obtain ⟨etag, hsome⟩ := Option.ne_none_iff_exists'.mp (heq ▸ hetag)
  exact ⟨stored, etag, url, hstored, hsome, hurl, x, hx, hfit.collection, hpage, hfit.url hpage,
    heq.trans hsome, hreply⟩

/-- **Unchanged means confirmed**, exactly when no request without `If-None-Match` is answered
    304. -/
theorem confirmed_iff :
    Confirmed formats apiBase repository server hash encode cursor ↔
      ∀ x ∈ (synchronize formats apiBase repository server hash cursor).2.sent,
        x.reply.isNotModified = true → x.etag ≠ none := by
  obtain ⟨issues, commits, hsent, hissues, hcommits, hnotModified, hpanicked⟩ :=
    (syncRun_synchronize formats apiBase repository server hash cursor).exchanges
  constructor
  · intro h x hx hreply hetag
    obtain ⟨error, herror⟩ := h.unasked x hx hreply (.inr hetag)
    -- a 304 reply never ends in an error
    rw [herror] at hnotModified hpanicked
    rw [hsent] at hx
    rcases List.mem_append.mp hx with hx | hx
    · obtain ⟨stored, rateLimit, heq⟩ := hnotModified.mpr ⟨x, hx, hreply⟩
      exact nomatch heq
    · obtain ⟨message, heq⟩ := hpanicked.mpr ⟨x, hx, hreply⟩
      exact nomatch heq
  · intro hasked
    have hconfirms : ∀ stored rateLimit,
        (synchronize formats apiBase repository server hash cursor).1 =
          .ok (.notModified stored rateLimit) →
        ServerConfirms formats apiBase repository cursor
          (synchronize formats apiBase repository server hash cursor).2.sent := by
      intro stored rateLimit heq
      obtain ⟨x, hx, hreply⟩ := hnotModified.mp ⟨stored, rateLimit, heq⟩
      have hmem : x ∈ (synchronize formats apiBase repository server hash cursor).2.sent :=
        hsent ▸ List.mem_append.mpr (.inl hx)
      exact serverConfirms_of_asksIssues hmem (hissues x hx) (hasked x hmem hreply) hreply
    refine ⟨hconfirms, ?_, ?_⟩
    · intro x hx hreply hunasked
      refine absurd ?_ (hasked x hx hreply)
      rcases hunasked with hpage | hetag
      · -- only a first page is requested conditionally
        rw [hsent] at hx
        rcases List.mem_append.mp hx with hx | hx
        · obtain ⟨stored, url, -, -, hfit⟩ := hissues x hx
          rw [hfit.etag, if_neg hpage]
        · exact (hcommits x hx).2
      · exact hetag
    · intro prior now answer hcursor hconveys hfresh
      rcases hconveys.fresh hfresh with hupdated | ⟨stored, rateLimit, heq⟩
      · exact .inl hupdated
      · exact .inr (hconfirms stored rateLimit heq)

/-- Without a stored cursor, the first request is answered 304: nothing is taken for unchanged
    evidence. -/
theorem not_confirmed_unconditional :
    ¬ Confirmed sampleFormats sampleApiBase ⟨"acme", "widget"⟩ (fun _ => .response ⟨304, [], []⟩) id
      (fun _ => defaultCursor) none := by
  intro h
  obtain ⟨stored, etag, url, hstored, hetag, -⟩ := h.notModified ⟨none⟩ RateLimit.default rfl
  have heq : stored = ⟨none⟩ := (Except.ok.inj hstored).symm
  rw [heq] at hetag
  exact nomatch hetag

end Confirmation

end Rationale.Engine
