import Rationale.GitHub.FetchRun

namespace Rationale.GitHub

open Rationale.Text

/-!
# The reported rate limit

A synchronization merges the rate limits of its replies, page by page and collection by collection.

* `Summary` — the latest limits and the smallest number of remaining requests of some exchanges;
* `Summary.append` — merged summaries are those of all exchanges;
* `synchronize_rateLimit` — an update reports the summary of every exchange of the synchronization, and
  an unchanged collection only the rate limit of the reply that says so.
-/

/-- The rate limit that a reply states. -/
def Reply.rateLimit : Reply → RateLimit
  | .failed _ => .default
  | .response answer => responseRateLimit answer

/-- What the replies of some exchanges come to: the latest limits, and the fewest remaining requests. -/
structure Summary (xs : List Exchange) (rateLimit : RateLimit) : Prop where
  limit : rateLimit.limit = (xs.filterMap (·.reply.rateLimit.limit)).getLast?
  remaining : rateLimit.remaining = (xs.filterMap (·.reply.rateLimit.remaining)).min?
  resetAt : rateLimit.resetAt = (xs.filterMap (·.reply.rateLimit.resetAt)).getLast?

theorem summary_nil : Summary [] .default := ⟨rfl, rfl, rfl⟩

/-- The rate limit of one reply is the summary of its exchange. -/
theorem summary_singleton (x : Exchange) : Summary [x] x.reply.rateLimit := by
  refine ⟨?_, ?_, ?_⟩
  · cases hlimit : x.reply.rateLimit.limit <;> simp [hlimit]
  · cases hremaining : x.reply.rateLimit.remaining <;> simp [hremaining]
  · cases hreset : x.reply.rateLimit.resetAt <;> simp [hreset]

/-- The smallest number of two lists is the smaller one of each. -/
theorem min?_append_of_some {l l' : List Nat} {m m' : Nat} (h : l.min? = some m)
    (h' : l'.min? = some m') : (l ++ l').min? = some (min m m') := by
  obtain ⟨hmem, hle⟩ := List.min?_eq_some_iff.mp h
  obtain ⟨hmem', hle'⟩ := List.min?_eq_some_iff.mp h'
  refine List.min?_eq_some_iff.mpr ⟨?_, fun n hn => ?_⟩
  · rw [List.mem_append]
    rcases le_total m m' with hm | hm
    · exact Or.inl (by rwa [min_eq_left hm])
    · exact Or.inr (by rwa [min_eq_right hm])
  · rcases List.mem_append.mp hn with hn | hn
    · exact (min_le_left m m').trans (hle n hn)
    · exact (min_le_right m m').trans (hle' n hn)

/-- **Merged summaries** are those of all exchanges. -/
theorem Summary.append {xs ys : List Exchange} {rateLimit rateLimit' : RateLimit}
    (h : Summary xs rateLimit) (h' : Summary ys rateLimit') :
    Summary (xs ++ ys) (mergeRateLimit rateLimit rateLimit') := by
  refine ⟨?_, ?_, ?_⟩
  · rw [List.filterMap_append, List.getLast?_append, ← h.limit, ← h'.limit]
    rfl
  · have hremaining := h.remaining.symm
    have hremaining' := h'.remaining.symm
    rw [List.filterMap_append]
    unfold mergeRateLimit
    cases hleft : rateLimit.remaining with
    | none =>
      rw [hleft, List.min?_eq_none_iff] at hremaining
      rw [hremaining, List.nil_append, hremaining']
      cases rateLimit'.remaining <;> rfl
    | some left =>
      cases hright : rateLimit'.remaining with
      | none =>
        rw [hright, List.min?_eq_none_iff] at hremaining'
        rw [hremaining', List.append_nil, hremaining, hleft]
        rfl
      | some right => exact (min?_append_of_some (hremaining.trans hleft) (hremaining'.trans hright)).symm
  · rw [List.filterMap_append, List.getLast?_append, ← h.resetAt, ← h'.resetAt]
    rfl

section Pages

variable {formats : Formats} {apiBase : Url} {repository : GitHubRepository} {server : Nat → Reply}
  {α : Type} {decode : List UInt8 → Option (List α)} {id : CollectionId} {etag : Option String}
  {turns index : Nat} {url : Url} {gathered gathered' : Gathered α} {s s' : Session}

/-- The rate limit of a page is that of its reply. -/
theorem rateLimit_of_pageOf {endpoint : String} {reply : Reply} {items : List α}
    {link pageEtag : Option String} {rateLimit : RateLimit}
    (h : pageOf decode endpoint reply = .ok (.updated items link pageEtag rateLimit)) :
    rateLimit = reply.rateLimit := by
  have hread := pageRead_pageOf decode endpoint reply
  rw [h] at hread
  cases hread with
  | read hsuccess hbody hitems => rfl

/-- What is gathered summarizes one exchange more after a page. -/
theorem Summary.add {xs : List Exchange} {items : List α} {link pageEtag : Option String}
    {rateLimit : RateLimit} (h : Summary xs gathered.rateLimit)
    (hpage : pageOf decode url.path (server s.sent.length) =
      .ok (.updated items link pageEtag rateLimit)) :
    Summary (xs ++ [exchange server id etag index url s])
      (gathered.add index items pageEtag rateLimit).rateLimit := by
  have hrate : rateLimit = (exchange server id etag index url s).reply.rateLimit :=
    rateLimit_of_pageOf hpage
  rw [hrate]
  exact h.append (summary_singleton _)

/-- **The loop** summarizes the exchanges of an updated collection. -/
theorem PagesRun.summary {xs : List Exchange} {result : Except GitHubError (Collection α)}
    (h : PagesRun formats apiBase repository server decode id etag turns index url gathered s result s')
    (hgathered : Summary xs gathered.rateLimit) (hresult : result = .ok (.updated gathered')) :
    ∃ ys, s'.sent = s.sent ++ ys ∧ Summary (xs ++ ys) gathered'.rateLimit := by
  induction h generalizing xs with
  | exhausted => exact absurd hresult (by simp)
  | unsent error => exact absurd hresult (by simp)
  | failed error hlimit hreply => exact absurd hresult (by simp)
  | notModified rateLimit hlimit hreply => exact absurd hresult (by simp)
  | last hlimit hpage hrecords =>
    obtain rfl : _ = gathered' := by simpa using hresult
    exact ⟨[_], rfl, hgathered.add hpage⟩
  | next hlimit hpage hrecords hvalid hrest ih =>
    obtain ⟨ys, hsent, hsummary⟩ := ih (hgathered.add hpage) hresult
    rw [Session.sent_send, List.append_assoc] at hsent
    rw [List.append_assoc] at hsummary
    exact ⟨_, hsent, hsummary⟩

/-- The rate limit of an unchanged page is that of its reply. -/
theorem rateLimit_of_notModified {endpoint : String} {reply : Reply} {rateLimit : RateLimit}
    (h : pageOf decode endpoint reply = .ok (.notModified rateLimit)) :
    reply.isNotModified = true ∧ rateLimit = reply.rateLimit := by
  refine ⟨(isNotModified_iff h).mpr ⟨rateLimit, rfl⟩, ?_⟩
  have hread := pageRead_pageOf decode endpoint reply
  rw [h] at hread
  cases hread with
  | notModified hstatus => rfl

/-- The last exchange of a session is answered 304, and states the rate limit. -/
def EndsUnchanged (xs : List Exchange) (rateLimit : RateLimit) : Prop :=
  ∃ earlier x, xs = earlier ++ [x] ∧ x.reply.isNotModified = true ∧ rateLimit = x.reply.rateLimit

/-- An unchanged collection has the rate limit of its last reply. -/
theorem endsUnchanged_pagesFrom {rateLimit : RateLimit}
    (h : pagesFrom formats apiBase repository server decode id etag turns index url gathered s =
      (.ok (.notModified rateLimit), s')) : EndsUnchanged s'.sent rateLimit := by
  induction turns generalizing index url gathered s with
  | zero => exact absurd (congrArg Prod.fst h) (by simp [pagesFrom])
  | succ turns ih =>
    unfold pagesFrom at h
    dsimp only at h
    split at h
    · exact absurd (congrArg Prod.fst h) (by simp)
    unfold page at h
    dsimp only at h
    by_cases hheader : (if index = 0 then etag else none).any (fun etag => !isHeaderValue etag)
    · rw [if_pos hheader] at h
      exact absurd (congrArg Prod.fst h) (by simp)
    rw [if_neg hheader] at h
    cases hpage : pageOf decode url.path (server s.sent.length) with
    | error error =>
      rw [hpage] at h
      exact absurd (congrArg Prod.fst h) (by simp)
    | ok found =>
      rw [hpage] at h
      cases found with
      | notModified pageRate =>
        obtain ⟨hresult, rfl⟩ := Prod.mk.inj h
        obtain rfl : pageRate = rateLimit := by simpa using hresult
        obtain ⟨hreply, hrate⟩ := rateLimit_of_notModified hpage
        exact ⟨s.sent, _, rfl, hreply, hrate⟩
      | updated items link pageEtag pageRate =>
        dsimp only at h
        split at h
        · exact absurd (congrArg Prod.fst h) (by simp)
        cases link with
        | none => exact absurd (congrArg Prod.fst h) (by simp)
        | some link =>
          dsimp only at h
          cases hvalid : validateNext formats apiBase repository link with
          | error error =>
            rw [hvalid] at h
            exact absurd (congrArg Prod.fst h) (by simp)
          | ok url' =>
            rw [hvalid] at h
            exact ih h

/-- What a collection makes of the rate limits of its replies. -/
theorem collection_summary {initialPath : String}
    (hfound : collection formats apiBase repository server decode id initialPath etag s =
      (.ok (.updated gathered'), s')) :
    ∃ ys, s'.sent = s.sent ++ ys ∧ Summary ys gathered'.rateLimit := by
  rcases collection_cases hfound with ⟨hresult, -⟩ | ⟨url, hurl, hrun⟩
  · exact absurd hresult (by simp)
  · exact hrun.summary summary_nil rfl

theorem collection_endsUnchanged {initialPath : String} {rateLimit : RateLimit}
    (hfound : collection formats apiBase repository server decode id initialPath etag s =
      (.ok (.notModified rateLimit), s')) : EndsUnchanged s'.sent rateLimit := by
  unfold collection at hfound
  split at hfound
  · exact absurd (congrArg Prod.fst hfound) (by simp)
  · exact endsUnchanged_pagesFrom hfound

end Pages

/-! ### Synchronization -/

section Synchronize

variable {formats : Formats} {apiBase : Url} {repository : GitHubRepository} {server : Nat → Reply}
  {hash : String → String} {cursor : Option String}

/-- The pull requests add the summaries of their commits. -/
theorem PullsRun.summary {commits commits' : Nat → List ApiCommit} {rateLimit rateLimit' : RateLimit}
    {pulls : List ApiItem} {s s' : Session}
    {outcome : Outcome ((Nat → List ApiCommit) × RateLimit)}
    (h : PullsRun formats apiBase repository server commits rateLimit pulls s outcome s')
    (hrate : Summary s.sent rateLimit) (houtcome : outcome = .ok (commits', rateLimit')) :
    Summary s'.sent rateLimit' := by
  induction h with
  | done =>
    obtain ⟨-, rfl⟩ : _ ∧ _ = rateLimit' := by simpa using houtcome
    exact hrate
  | failed hfound => exact absurd houtcome (by simp)
  | panicked hfound => exact absurd houtcome (by simp)
  | next hfound hrest ih =>
    obtain ⟨ys, hsent, hsummary⟩ := collection_summary hfound
    refine ih ?_ houtcome
    rw [hsent]
    exact hrate.append hsummary

/-- What an outcome reports of the exchanges that led to it. -/
def GitHubSyncOutcome.Reports : GitHubSyncOutcome → List Exchange → Prop
  | .updated evidence, xs => Summary xs evidence.rateLimit
  | .notModified _ rateLimit, xs => EndsUnchanged xs rateLimit

/-- **The reported rate limit**: after an update the latest limits and the fewest remaining requests of
    all its exchanges, and otherwise the rate limit of the reply with status 304. -/
theorem synchronize_rateLimit {outcome : GitHubSyncOutcome}
    (h : (synchronize formats apiBase repository server hash cursor).1 = .ok outcome) :
    outcome.Reports (synchronize formats apiBase repository server hash cursor).2.sent := by
  have hrun := syncRun_synchronize formats apiBase repository server hash cursor
  rw [h] at hrun
  generalize (synchronize formats apiBase repository server hash cursor).2 = s at hrun ⊢
  cases hrun with
  | notModified hcursor hfound => exact collection_endsUnchanged hfound
  | @updated stored gathered s' outcome' _ _ hcursor hfound hpulls hresult =>
    cases outcome' with
    | error error => exact absurd hresult (by simp)
    | panicked message => exact absurd hresult (by simp)
    | ok found =>
      obtain ⟨commits, rateLimit⟩ := found
      obtain rfl := Outcome.ok.inj hresult
      obtain ⟨ys, hsent, hsummary⟩ := collection_summary hfound
      refine hpulls.summary ?_ rfl
      rw [hsent]
      exact hsummary

end Synchronize

/-- A pull request and its commits, with one remaining request less for the second reply. -/
def meteredServer : Nat → Reply
  | 0 => .response ⟨200, [("x-ratelimit-limit", "60".toList), ("x-ratelimit-remaining", "58".toList)],
      [.bytes (asciiBytes samplePage)]⟩
  | _ + 1 => .response ⟨200, [("x-ratelimit-remaining", "57".toList)], [.bytes (asciiBytes "[]")]⟩

set_option maxRecDepth 2000 in
theorem synchronize_rateLimit_metered :
    ∃ evidence, (synchronize sampleFormats sampleApiBase ⟨"acme", "widget"⟩ meteredServer id none).1 =
        .ok (.updated evidence) ∧
      Summary (synchronize sampleFormats sampleApiBase ⟨"acme", "widget"⟩ meteredServer id none).2.sent
        evidence.rateLimit :=
  ⟨_, rfl,
    @synchronize_rateLimit sampleFormats sampleApiBase ⟨"acme", "widget"⟩ meteredServer id none _ rfl⟩

end Rationale.GitHub
