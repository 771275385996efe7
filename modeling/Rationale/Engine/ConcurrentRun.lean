import Rationale.Engine.Concurrent

namespace Rationale.Engine

open Std Rationale.Library Rationale.Store

/-!
# Schedules of concurrent publications

* `Unpublished`, `Published` — the states before and after the one publication that can happen;
* `Reused` — the states when the evidence was current already;
* `AllSucceed` — every call is fine, and one of them published;
* `allSucceed_iff_undisturbed` — the schedules under which everything succeeds: no process reads the
  current pointer while another one is between its own reading and its commit.
-/

section Runs

variable {hash : String → String} {evidence : PreparedEvidence} {sources : List SourceState}
  {n : Nat} {historyComplete : Fin n → Bool} {githubRateLimit : Fin n → Option GitHubRateLimitView}
  {db : Database} {s : Processes n} {i : Fin n}

/-! ### Before a publication -/

/-- What one process alone would publish. -/
def publishNew (hash : String → String) (evidence : PreparedEvidence) (sources : List SourceState)
    (db : Database) : Except StoreError Database :=
  publishCandidate db (snapshotIdOf hash evidence sources) evidence.sorted (sortSources sources)

/-- A writing call has run some of the statements on a candidate of `db`. -/
def WritesOn (hash : String → String) (evidence : PreparedEvidence) (sources : List SourceState)
    (db : Database) (phase : Phase) : Prop :=
  ∀ candidate remaining, phase = .writing candidate remaining →
    ∃ begun, beginCandidate db (snapshotIdOf hash evidence sources) = .ok begun ∧
      remaining.foldlM CandidateSnapshot.execute candidate =
        (evidenceStatements evidence.sorted (sortSources sources)).foldlM
          CandidateSnapshot.execute begun

section Writes

variable {candidate after : CandidateSnapshot} {statement : Statement} {remaining : List Statement}
  {phase : Phase} {e : StoreError}

theorem writesOn_of_not_writing (h : phase.isWriting = false) :
    WritesOn hash evidence sources db phase := by
  rintro candidate remaining rfl
  exact nomatch h

theorem publishNew_eq_begin : publishNew hash evidence sources db =
    (beginCandidate db (snapshotIdOf hash evidence sources) >>= fun candidate =>
      (evidenceStatements evidence.sorted (sortSources sources)).foldlM
        CandidateSnapshot.execute candidate >>= CandidateSnapshot.publish) :=
  publishCandidate_eq_statements _ _ _ _

/-- What a writing call is going to return is what one process alone would. -/
theorem WritesOn.publishNew_eq
    (h : WritesOn hash evidence sources db (.writing candidate remaining)) :
    publishNew hash evidence sources db =
      (remaining.foldlM CandidateSnapshot.execute candidate >>= CandidateSnapshot.publish) := by
  obtain ⟨begun, hbegin, heq⟩ := h candidate remaining rfl
  rw [publishNew_eq_begin, hbegin, heq]
  rfl

theorem WritesOn.next (h : WritesOn hash evidence sources db
    (.writing candidate (statement :: remaining))) (hok : candidate.execute statement = .ok after) :
    WritesOn hash evidence sources db (.writing after remaining) := by
  intro candidate' remaining' heq
  obtain ⟨rfl, rfl⟩ := Phase.writing.inj heq
  obtain ⟨begun, hbegin, hrun⟩ := h candidate _ rfl
  refine ⟨begun, hbegin, ?_⟩
  rw [← hrun, List.foldlM_cons, hok]
  rfl

theorem WritesOn.publishNew_error (h : WritesOn hash evidence sources db
    (.writing candidate (statement :: remaining))) (herror : candidate.execute statement = .error e) :
    publishNew hash evidence sources db = .error e := by
  rw [h.publishNew_eq, List.foldlM_cons, herror]
  rfl

end Writes

/-- No process has published, and a call that returned has failed as one process alone would. -/
structure Unpublished (hash : String → String) (evidence : PreparedEvidence)
    (sources : List SourceState) {n : Nat} (db : Database) (s : Processes n) : Prop where
  committed : s.committed = db
  writes : ∀ i, WritesOn hash evidence sources db (s.phases i)
  failed : ∀ i result, s.phases i = .done result →
    ∃ e, result = .error (.store e) ∧ publishNew hash evidence sources db = .error e

theorem unpublished_initial :
    Unpublished hash evidence sources db (Processes.initial db : Processes n) where
  committed := rfl
  writes _ := writesOn_of_not_writing rfl
  failed _ _ h := nomatch h

theorem Unpublished.setPhase (h : Unpublished hash evidence sources db s) {phase : Phase}
    (hwrites : WritesOn hash evidence sources db phase)
    (hfailed : ∀ result, phase = .done result →
      ∃ e, result = .error (.store e) ∧ publishNew hash evidence sources db = .error e) :
    Unpublished hash evidence sources db (s.setPhase i phase) where
  committed := h.committed
  writes := Processes.forall_setPhase (p := fun _ phase => WritesOn hash evidence sources db phase)
    hwrites (fun j _ => h.writes j)
  failed := Processes.forall_setPhase (p := fun _ phase => ∀ result, phase = .done result →
      ∃ e, result = .error (.store e) ∧ publishNew hash evidence sources db = .error e)
    hfailed (fun j _ => h.failed j)

/-- A call that fails leaves everything unpublished. -/
theorem Unpublished.fail (h : Unpublished hash evidence sources db s) {e : StoreError}
    (he : publishNew hash evidence sources db = .error e) :
    Unpublished hash evidence sources db (s.setPhase i (.done (.error (.store e)))) := by
  refine h.setPhase (writesOn_of_not_writing rfl) (fun result hresult => ?_)
  exact ⟨e, (Phase.done.inj hresult).symm, he⟩

/-- **A step before the publication** is the publication, or leaves everything unpublished. -/
theorem Unpublished.step (h : Unpublished hash evidence sources db s)
    (hother : db.current ≠ some (snapshotIdOf hash evidence sources)) (i : Fin n) :
    Unpublished hash evidence sources db
        (s.step hash evidence sources historyComplete githubRateLimit i) ∨
      ∃ committed, publishNew hash evidence sources db = .ok committed ∧
        (s.phases i).isWriting = true ∧
        s.step hash evidence sources historyComplete githubRateLimit i =
          ({ s with committed } : Processes n).setPhase i (.done (.ok
            (processReport hash evidence sources historyComplete githubRateLimit i false))) := by
  have hstep := @transition_step hash evidence sources n historyComplete githubRateLimit s i
  generalize s.step hash evidence sources historyComplete githubRateLimit i = s' at *
  have hwrites := h.writes i
  cases hstep with
  | waits _ => exact Or.inl h
  | opens _ => exact Or.inl (h.setPhase (writesOn_of_not_writing rfl) nofun)
  -- every phase before the commit reads the initial database, so its outcome is that of
  -- `publishNew` on it; only `publishes` leaves the invariant
  | reuses _ hcurrent =>
    rw [h.committed] at hcurrent
    exact absurd hcurrent hother
  | isOutdated _ _ => exact Or.inl (h.setPhase (writesOn_of_not_writing rfl) nofun)
  | begins _ _ hbegin =>
    rw [h.committed] at hbegin
    refine Or.inl (h.setPhase (fun candidate remaining heq => ?_) nofun)
    obtain ⟨rfl, rfl⟩ := Phase.writing.inj heq
    exact ⟨_, hbegin, rfl⟩
  | isRejected _ hbegin =>
    rw [h.committed] at hbegin
    refine Or.inl (h.fail ?_)
    rw [publishNew_eq_begin, hbegin]
    rfl
  | executes hphase hok =>
    rw [hphase] at hwrites
    exact Or.inl (h.setPhase (hwrites.next hok) nofun)
  | fails hphase herror =>
    rw [hphase] at hwrites
    exact Or.inl (h.fail (hwrites.publishNew_error herror))
  | publishes hphase hok =>
    rw [hphase] at hwrites
    exact Or.inr ⟨_, hwrites.publishNew_eq.trans hok, by rw [hphase]; rfl, rfl⟩
  | isNotPublished hphase herror =>
    rw [hphase] at hwrites
    exact Or.inl (h.fail (hwrites.publishNew_eq.trans herror))

/-- When nothing can be published, nothing ever is. -/
theorem Unpublished.run (h : Unpublished hash evidence sources db s)
    (hother : db.current ≠ some (snapshotIdOf hash evidence sources)) {e : StoreError}
    (he : publishNew hash evidence sources db = .error e) (schedule : List (Fin n)) :
    Unpublished hash evidence sources db
      (s.run hash evidence sources historyComplete githubRateLimit schedule) := by
  unfold Processes.run
  induction schedule generalizing s with
  | nil => exact h
  | cons i schedule ih =>
    rw [List.foldl_cons]
    rcases h.step hother i with hnext | ⟨committed, hok, -⟩
    · exact ih hnext
    · rw [he] at hok
      exact nomatch hok

/-! ### When the evidence is current already -/

/-- Every call that got as far as reading the pointer returned without publishing. -/
structure Reused (report : Fin n → Bool → SyncReport) (db : Database) (s : Processes n) : Prop where
  committed : s.committed = db
  phases : ∀ i, s.phases i = .start ∨ s.phases i = .opened ∨ s.phases i = .done (.ok (report i true))

theorem Reused.step
    (h : Reused (processReport hash evidence sources historyComplete githubRateLimit) db s)
    (hcurrent : db.current = some (snapshotIdOf hash evidence sources)) (i : Fin n) :
    Reused (processReport hash evidence sources historyComplete githubRateLimit) db
      (s.step hash evidence sources historyComplete githubRateLimit i) := by
  have hset : ∀ phase : Phase, phase = .opened ∨ phase = .done (.ok
      (processReport hash evidence sources historyComplete githubRateLimit i true)) →
      Reused (processReport hash evidence sources historyComplete githubRateLimit) db
        (s.setPhase i phase) := by
    intro phase hphase
    refine ⟨h.committed, ?_⟩
    exact Processes.forall_setPhase (p := fun j phase => phase = .start ∨ phase = .opened ∨
        phase = .done (.ok
          (processReport hash evidence sources historyComplete githubRateLimit j true)))
      (Or.inr hphase) (fun j _ => h.phases j)
  have hstep := @transition_step hash evidence sources n historyComplete githubRateLimit s i
  generalize s.step hash evidence sources historyComplete githubRateLimit i = s' at *
  -- a call is never further than reading the pointer
  have hphases := h.phases i
  cases hstep with
  | waits _ => exact h
  | opens _ => exact hset _ (Or.inl rfl)
  | reuses _ _ => exact hset _ (Or.inr rfl)
  | isOutdated _ hother =>
    rw [h.committed] at hother
    exact absurd hcurrent hother
  | begins hphase => simp [hphase] at hphases
  | isRejected hphase => simp [hphase] at hphases
  | executes hphase => simp [hphase] at hphases
  | fails hphase => simp [hphase] at hphases
  | publishes hphase => simp [hphase] at hphases
  | isNotPublished hphase => simp [hphase] at hphases

theorem Reused.run
    (h : Reused (processReport hash evidence sources historyComplete githubRateLimit) db s)
    (hcurrent : db.current = some (snapshotIdOf hash evidence sources)) (schedule : List (Fin n)) :
    Reused (processReport hash evidence sources historyComplete githubRateLimit) db
      (s.run hash evidence sources historyComplete githubRateLimit schedule) := by
  unfold Processes.run
  induction schedule generalizing s with
  | nil => exact h
  | cons i schedule ih =>
    rw [List.foldl_cons]
    exact ih (h.step hcurrent i)

/-! ### The write lock -/

/-- At most one immediate transaction is open. -/
def OneWriter (s : Processes n) : Prop :=
  ∀ i j, (s.phases i).isWriting = true → (s.phases j).isWriting = true → i = j

/-- A process may go on writing, or begin to write when nobody else does. -/
theorem OneWriter.setPhase (h : OneWriter s) {phase : Phase}
    (hphase : phase.isWriting = true → (s.phases i).isWriting = true ∨ s.locked = false) :
    OneWriter (s.setPhase i phase) := by
  -- a writer other than `i` was one before
  have hother : ∀ j, j ≠ i → ((s.setPhase i phase).phases j).isWriting = true →
      phase.isWriting = true → False := by
    intro j hji hj hwriting
    rw [Processes.phases_setPhase_ne hji] at hj
    rcases hphase hwriting with hi | hfree
    · exact hji (h j i hj hi)
    · rw [Processes.locked_iff.mpr ⟨j, hj⟩] at hfree
      exact nomatch hfree
  intro j k hj hk
  by_cases hji : j = i
  · by_cases hki : k = i
    · exact hji.trans hki.symm
    · rw [hji, Processes.phases_setPhase_self] at hj
      exact (hother k hki hk hj).elim
  · by_cases hki : k = i
    · rw [hki, Processes.phases_setPhase_self] at hk
      exact (hother j hji hj hk).elim
    · rw [Processes.phases_setPhase_ne hji] at hj
      rw [Processes.phases_setPhase_ne hki] at hk
      exact h j k hj hk

theorem OneWriter.step (h : OneWriter s) (i : Fin n) :
    OneWriter (s.step hash evidence sources historyComplete githubRateLimit i) := by
  have hstep := @transition_step hash evidence sources n historyComplete githubRateLimit s i
  generalize s.step hash evidence sources historyComplete githubRateLimit i = s' at *
  cases hstep with
  | waits _ => exact h
  | opens _ => exact h.setPhase nofun
  | reuses _ _ => exact h.setPhase nofun
  | isOutdated _ _ => exact h.setPhase nofun
  | begins _ hfree _ => exact h.setPhase (fun _ => Or.inr hfree)
  | isRejected _ _ => exact h.setPhase nofun
  | executes hphase _ => exact h.setPhase (fun _ => Or.inl (by rw [hphase]; rfl))
  | fails _ _ => exact h.setPhase nofun
  | @publishes candidate committed _ _ =>
    exact OneWriter.setPhase (s := { s with committed }) h nofun
  | isNotPublished _ _ => exact h.setPhase nofun

/-! ### Overlapping calls -/

/-- A process reads the current pointer only while no other one is between its own reading and its
    commit. -/
def ReadsAlone (s : Processes n) (i : Fin n) : Prop :=
  s.phases i = .opened → ∀ j, (s.phases j).isBusy = false

/-- No two calls are between their reading and their commit. -/
def AtMostOneBusy (s : Processes n) : Prop :=
  ∀ i j, (s.phases i).isBusy = true → (s.phases j).isBusy = true → i = j

/-- Moving on within a call does not change which calls overlap. -/
theorem atMostOneBusy_setPhase {phase : Phase} (h : phase.isBusy = (s.phases i).isBusy) :
    AtMostOneBusy (s.setPhase i phase) ↔ AtMostOneBusy s := by
  have hsame : ∀ j, ((s.setPhase i phase).phases j).isBusy = (s.phases j).isBusy :=
    Processes.forall_setPhase (p := fun j phase => phase.isBusy = (s.phases j).isBusy) h
      (fun _ _ => rfl)
  unfold AtMostOneBusy
  simp only [hsame]

/-- A call that finds another snapshot current overlaps with all that are busy. -/
theorem atMostOneBusy_outdated (h : s.phases i = .opened) :
    AtMostOneBusy (s.setPhase i .outdated) ↔ ∀ j, (s.phases j).isBusy = false := by
  constructor
  · intro hone j
    by_cases hji : j = i
    · rw [hji, h]
      rfl
    · rw [Bool.eq_false_iff]
      intro hbusy
      refine hji (hone j i ?_ ?_)
      · rwa [Processes.phases_setPhase_ne hji]
      · rw [Processes.phases_setPhase_self]
        rfl
  · intro hnone
    have honly : ∀ j, ((s.setPhase i .outdated).phases j).isBusy = true → j = i := by
      intro j hj
      by_contra hji
      rw [Processes.phases_setPhase_ne hji, hnone j] at hj
      exact nomatch hj
    exact fun j k hj hk => (honly j hj).trans (honly k hk).symm

/-- **Overlaps before the publication** come from readings that are not alone. -/
theorem atMostOneBusy_step {committed : Database}
    (hok : publishNew hash evidence sources db = .ok committed)
    (hstay : Unpublished hash evidence sources db
      (s.step hash evidence sources historyComplete githubRateLimit i)) :
    AtMostOneBusy (s.step hash evidence sources historyComplete githubRateLimit i) ↔
      AtMostOneBusy s ∧ ReadsAlone s i := by
  -- nothing has failed, as the evidence can be published
  have hunfinished : ∀ j result, (s.step hash evidence sources historyComplete githubRateLimit
      i).phases j ≠ .done result := by
    intro j result hdone
    obtain ⟨e, -, he⟩ := hstay.failed j result hdone
    rw [hok] at he
    exact nomatch he
  have hstep := @transition_step hash evidence sources n historyComplete githubRateLimit s i
  generalize s.step hash evidence sources historyComplete githubRateLimit i = s' at *
  have hskip : ∀ {phase : Phase}, s.phases i ≠ .opened → phase.isBusy = (s.phases i).isBusy →
      (AtMostOneBusy (s.setPhase i phase) ↔ AtMostOneBusy s ∧ ReadsAlone s i) := by
    intro phase hne hsame
    rw [atMostOneBusy_setPhase hsame]
    exact (and_iff_left (fun hopened => absurd hopened hne)).symm
  cases hstep with
  | waits hne => exact (and_iff_left (fun hopened => absurd hopened hne)).symm
  | opens hphase => exact hskip (by simp [hphase]) (by rw [hphase]; rfl)
  | reuses _ _ => exact absurd Processes.phases_setPhase_self (hunfinished i _)
  | isOutdated hphase _ =>
    rw [atMostOneBusy_outdated hphase]
    constructor
    · intro hnone
      refine ⟨fun j k hj _ => ?_, fun _ => hnone⟩
      rw [hnone j] at hj
      exact nomatch hj
    · exact fun h => h.2 hphase
  | begins hphase _ _ => exact hskip (by simp [hphase]) (by rw [hphase]; rfl)
  | isRejected _ _ => exact absurd Processes.phases_setPhase_self (hunfinished i _)
  | executes hphase _ => exact hskip (by simp [hphase]) (by rw [hphase]; rfl)
  | fails _ _ => exact absurd Processes.phases_setPhase_self (hunfinished i _)
  | publishes _ _ => exact absurd Processes.phases_setPhase_self (hunfinished i _)
  | isNotPublished _ _ => exact absurd Processes.phases_setPhase_self (hunfinished i _)

/-! ### After the publication -/

/-- The call read the pointer before the publication, and did not publish. -/
def Phase.isLate : Phase → Bool
  | .outdated => true
  | .done (.error _) => true
  | _ => false

/-- Process `winner` has published, and no other process holds the lock. -/
structure Published (report : Fin n → Bool → SyncReport) (committed : Database) (winner : Fin n)
    (s : Processes n) : Prop where
  committed : s.committed = committed
  reported : s.phases winner = .done (.ok (report winner false))
  others : ∀ i, i ≠ winner → s.phases i = .start ∨ s.phases i = .opened ∨
    s.phases i = .done (.ok (report i true)) ∨ (s.phases i).isLate = true

theorem Published.setPhase {report : Fin n → Bool → SyncReport} {committed : Database}
    {winner : Fin n} (h : Published report committed winner s) (hi : i ≠ winner) {phase : Phase}
    (hphase : phase = .opened ∨ phase = .done (.ok (report i true)) ∨ phase.isLate = true) :
    Published report committed winner (s.setPhase i phase) where
  committed := h.committed
  reported := by
    rw [Processes.phases_setPhase_ne hi.symm]
    exact h.reported
  others := Processes.forall_setPhase (p := fun j phase => j ≠ winner → phase = .start ∨
      phase = .opened ∨ phase = .done (.ok (report j true)) ∨ phase.isLate = true)
    (fun _ => Or.inr hphase) (fun j _ => h.others j)

/-- Moving on within a call does not make it late or in time. -/
theorem isLate_setPhase {phase : Phase} (h : phase.isLate = (s.phases i).isLate) (j : Fin n) :
    ((s.setPhase i phase).phases j).isLate = (s.phases j).isLate :=
  Processes.forall_setPhase (p := fun j phase => phase.isLate = (s.phases j).isLate) h
    (fun _ _ => rfl) j

/-- **A step after the publication** publishes nothing more, and the same calls are late. -/
theorem Published.step {committed : Database} {winner : Fin n}
    (h : Published (processReport hash evidence sources historyComplete githubRateLimit) committed
      winner s) (hcurrent : committed.current = some (snapshotIdOf hash evidence sources))
    (hid : snapshotIdOf hash evidence sources ∈ committed.snapshots) (i : Fin n) :
    Published (processReport hash evidence sources historyComplete githubRateLimit) committed winner
        (s.step hash evidence sources historyComplete githubRateLimit i) ∧
      ∀ j, ((s.step hash evidence sources historyComplete githubRateLimit i).phases j).isLate =
        (s.phases j).isLate := by
  have hstep := @transition_step hash evidence sources n historyComplete githubRateLimit s i
  generalize s.step hash evidence sources historyComplete githubRateLimit i = s' at *
  -- a process that moves is not the one that is done
  have hmoves : ∀ {phase : Phase}, s.phases i = phase → phase ≠ .done (.ok
      (processReport hash evidence sources historyComplete githubRateLimit winner false)) →
      i ≠ winner := by
    rintro phase hphase hne rfl
    exact hne (hphase.symm.trans h.reported)
  have hnowrite : ∀ {candidate : CandidateSnapshot} {remaining : List Statement},
      s.phases i ≠ .writing candidate remaining := by
    intro candidate remaining hphase
    have hothers := h.others i (hmoves hphase nofun)
    simp [hphase, Phase.isLate] at hothers
  cases hstep with
  | waits _ => exact ⟨h, fun _ => rfl⟩
  | opens hphase =>
    refine ⟨h.setPhase (hmoves hphase nofun) (Or.inl rfl), isLate_setPhase ?_⟩
    rw [hphase]
    rfl
  | reuses hphase _ =>
    refine ⟨h.setPhase (hmoves hphase nofun) (Or.inr (Or.inl rfl)), isLate_setPhase ?_⟩
    rw [hphase]
    rfl
  | isOutdated _ hother =>
    rw [h.committed] at hother
    exact absurd hcurrent hother
  | begins _ _ hbegin =>
    -- the identifier is taken
    rw [h.committed, beginCandidate, if_pos hid] at hbegin
    exact nomatch hbegin
  | isRejected hphase _ =>
    refine ⟨h.setPhase (hmoves hphase nofun) (Or.inr (Or.inr rfl)), isLate_setPhase ?_⟩
    rw [hphase]
    rfl
  | executes hphase _ => exact absurd hphase hnowrite
  | fails hphase _ => exact absurd hphase hnowrite
  | publishes hphase _ => exact absurd hphase hnowrite
  | isNotPublished hphase _ => exact absurd hphase hnowrite

/-- The publication itself: the other calls that are late are those that overlap with it. -/
theorem Unpublished.published (h : Unpublished hash evidence sources db s) (hone : OneWriter s)
    {committed : Database} (hok : publishNew hash evidence sources db = .ok committed)
    (hi : (s.phases i).isWriting = true) {report : Fin n → Bool → SyncReport} :
    Published report committed i
        (({ s with committed } : Processes n).setPhase i (.done (.ok (report i false)))) ∧
      (AtMostOneBusy s ↔ ∀ j, ((({ s with committed } : Processes n).setPhase i
        (.done (.ok (report i false)))).phases j).isLate = false) := by
  have hbusy : (s.phases i).isBusy = true := by
    cases hphase : s.phases i <;> simp_all [Phase.isWriting, Phase.isBusy]
  -- the others have neither written nor returned
  have hothers : ∀ j, j ≠ i → (s.phases j = .start ∨ s.phases j = .opened ∨
      s.phases j = .outdated) := by
    intro j hji
    cases hphase : s.phases j with
    | start => exact Or.inl rfl
    | opened => exact Or.inr (Or.inl rfl)
    | outdated => exact Or.inr (Or.inr rfl)
    | writing candidate remaining => exact absurd (hone j i (by rw [hphase]; rfl) hi) hji
    | done result =>
      obtain ⟨e, -, he⟩ := h.failed j result hphase
      rw [hok] at he
      exact nomatch he
  have hlate : ∀ j, j ≠ i → (s.phases j).isLate = (s.phases j).isBusy := by
    intro j hji
    rcases hothers j hji with hphase | hphase | hphase <;> rw [hphase] <;> rfl
  have hne : ∀ j, j ≠ i → (({ s with committed } : Processes n).setPhase i
      (.done (.ok (report i false)))).phases j = s.phases j :=
    fun j hji => Processes.phases_setPhase_ne hji
  refine ⟨⟨rfl, Processes.phases_setPhase_self, fun j hji => ?_⟩, fun hall j => ?_,
    fun hnone j k hj hk => ?_⟩
  · rw [hne j hji]
    rcases hothers j hji with hphase | hphase | hphase
    · exact Or.inl hphase
    · exact Or.inr (Or.inl hphase)
    · exact Or.inr (Or.inr (Or.inr (by rw [hphase]; rfl)))
  · by_cases hji : j = i
    · rw [hji, Processes.phases_setPhase_self]
      rfl
    · rw [hne j hji, hlate j hji, Bool.eq_false_iff]
      exact fun hj => hji (hall j i hj hbusy)
  · -- whoever is busy is the publisher
    have honly : ∀ l, (s.phases l).isBusy = true → l = i := by
      intro l hl
      by_contra hli
      have hnot := hnone l
      rw [hne l hli, hlate l hli, hl] at hnot
      exact nomatch hnot
    exact (honly j hj).trans (honly k hk).symm

/-! ### Whole schedules -/

/-- What holds along a run, where `alone` says that every reading so far was alone. -/
def Progress (hash : String → String) (evidence : PreparedEvidence) (sources : List SourceState)
    (report : Fin n → Bool → SyncReport) (db committed : Database) (alone : Prop)
    (s : Processes n) : Prop :=
  (Unpublished hash evidence sources db s ∧ OneWriter s ∧ (alone ↔ AtMostOneBusy s)) ∨
    ∃ winner, Published report committed winner s ∧
      (alone ↔ ∀ i, (s.phases i).isLate = false)

theorem progress_step {committed : Database} {alone : Prop}
    (hother : db.current ≠ some (snapshotIdOf hash evidence sources))
    (hok : publishNew hash evidence sources db = .ok committed)
    (hcurrent : committed.current = some (snapshotIdOf hash evidence sources))
    (hid : snapshotIdOf hash evidence sources ∈ committed.snapshots)
    (h : Progress hash evidence sources
      (processReport hash evidence sources historyComplete githubRateLimit) db committed alone s)
    (i : Fin n) :
    Progress hash evidence sources
      (processReport hash evidence sources historyComplete githubRateLimit) db committed
      (alone ∧ ReadsAlone s i)
      (s.step hash evidence sources historyComplete githubRateLimit i) := by
  rcases h with ⟨hun, hone, halone⟩ | ⟨winner, hpub, halone⟩
  · rcases @Unpublished.step hash evidence sources n historyComplete githubRateLimit db s hun hother
      i with hstay | ⟨committed', hok', hwriting, heq⟩
    · refine Or.inl ⟨hstay, hone.step i, ?_⟩
      rw [atMostOneBusy_step hok hstay, halone]
    · obtain rfl : committed' = committed := Except.ok.inj (hok'.symm.trans hok)
      rw [heq]
      obtain ⟨hpub, hlate⟩ := @Unpublished.published hash evidence sources n db s i hun hone
        committed' hok hwriting
        (processReport hash evidence sources historyComplete githubRateLimit)
      refine Or.inr ⟨i, hpub, ?_⟩
      rw [← hlate, halone]
      refine and_iff_left (fun hopened => ?_)
      rw [hopened] at hwriting
      exact nomatch hwriting
  · obtain ⟨hpub', hlate⟩ := hpub.step hcurrent hid i
    refine Or.inr ⟨winner, hpub', ?_⟩
    simp only [hlate]
    rw [halone]
    refine and_iff_left_of_imp (fun hnone _ j => ?_)
    -- after the publication, whoever is busy is late
    have hbusy : (s.phases j).isBusy = true → (s.phases j).isLate = true := by
      by_cases hj : j = winner
      · rw [hj, hpub.reported]
        exact nofun
      · rcases hpub.others j hj with hphase | hphase | hphase | hphase
        · rw [hphase]
          exact nofun
        · rw [hphase]
          exact nofun
        · rw [hphase]
          exact nofun
        · exact fun _ => hphase
    rw [Bool.eq_false_iff]
    intro hj
    rw [hnone j] at hbusy
    exact nomatch hbusy hj

theorem progress_run {committed : Database} {alone : Prop}
    (hother : db.current ≠ some (snapshotIdOf hash evidence sources))
    (hok : publishNew hash evidence sources db = .ok committed)
    (hcurrent : committed.current = some (snapshotIdOf hash evidence sources))
    (hid : snapshotIdOf hash evidence sources ∈ committed.snapshots)
    (h : Progress hash evidence sources
      (processReport hash evidence sources historyComplete githubRateLimit) db committed alone s)
    (schedule : List (Fin n)) :
    Progress hash evidence sources
      (processReport hash evidence sources historyComplete githubRateLimit) db committed
      (alone ∧ Along (Processes.step hash evidence sources historyComplete githubRateLimit)
        ReadsAlone s schedule)
      (s.run hash evidence sources historyComplete githubRateLimit schedule) := by
  unfold Processes.run
  induction schedule generalizing s alone with
  | nil => simpa [Along] using h
  | cons i schedule ih =>
    rw [List.foldl_cons, Along, ← and_assoc]
    exact ih (progress_step hother hok hcurrent hid h i)

end Runs

/-- Every call has returned. -/
def Processes.Complete {n : Nat} (s : Processes n) : Prop := ∀ i, (s.phases i).result?.isSome = true

instance {n : Nat} (s : Processes n) : Decidable s.Complete :=
  inferInstanceAs (Decidable (∀ i, (s.phases i).result?.isSome = true))

section Claim

variable (hash : String → String) (evidence : PreparedEvidence) (sources : List SourceState)
  {n : Nat} (historyComplete : Fin n → Bool)
  (githubRateLimit : Fin n → Option GitHubRateLimitView)

/-- The current snapshot is the evidence.  (The rest of a call only goes into its report.) -/
def EvidenceIsCurrent (db : Database) : Prop := IsCurrent hash db ⟨evidence, sources, true, none⟩

/-- Every call succeeded, one of them published unless the evidence was current before, and it is
    current now. -/
structure AllSucceed (before : Database) (s : Processes n) : Prop where
  ok : ∀ i, ∃ report, s.phases i = .done (.ok report)
  published :
    currentSnapshotId before = some (snapshotIdOf hash evidence sources) ∧
      (∀ i report, s.phases i = .done (.ok report) → report.unchanged = true) ∨
    currentSnapshotId before ≠ some (snapshotIdOf hash evidence sources) ∧
      ∃! i, ∃ report, s.phases i = .done (.ok report) ∧ report.unchanged = false
  current : EvidenceIsCurrent hash evidence sources s.committed

/-- The evidence is current to begin with; or it can be published, and no process reads the current
    pointer while another one is between its own reading and its commit. -/
def Undisturbed (db : Database) (schedule : List (Fin n)) : Prop :=
  EvidenceIsCurrent hash evidence sources db ∨
    (0 < n ∧ currentSnapshotId db ≠ some (snapshotIdOf hash evidence sources) ∧
      snapshotIdOf hash evidence sources ∉ db.snapshots ∧ Consistent db evidence ∧
      Along (Processes.step hash evidence sources historyComplete githubRateLimit) ReadsAlone
        (Processes.initial db) schedule)

end Claim

section Claim

variable {hash : String → String} {evidence : PreparedEvidence} {sources : List SourceState}
  {n : Nat} {historyComplete : Fin n → Bool} {githubRateLimit : Fin n → Option GitHubRateLimitView}
  {db : Database} {s : Processes n}

theorem Processes.Complete.exists_result (h : s.Complete) (i : Fin n) :
    ∃ result, s.phases i = .done result := by
  have hi := h i
  cases hphase : s.phases i with
  | done result => exact ⟨result, rfl⟩
  | start => simp [hphase, Phase.result?] at hi
  | opened => simp [hphase, Phase.result?] at hi
  | outdated => simp [hphase, Phase.result?] at hi
  | writing candidate remaining => simp [hphase, Phase.result?] at hi

/-- One process alone publishes exactly new and consistent evidence. -/
theorem publishNew_eq_ok {committed : Database} :
    publishNew hash evidence sources db = .ok committed ↔
      snapshotIdOf hash evidence sources ∉ db.snapshots ∧ Consistent db evidence ∧
        committed = withEvidence db (snapshotIdOf hash evidence sources) evidence.sorted
          (sortSources sources) := by
  have hsorted : Consistent db evidence.sorted ↔ Consistent db evidence :=
    ⟨fun h => ⟨h.records, h.edges⟩, fun h => ⟨h.records, h.edges⟩⟩
  unfold publishNew
  rw [publishCandidate_eq_ok, hsorted]

/-- Where the identifier is current already, every call succeeds, and the evidence is current
    afterwards exactly when it was before. -/
theorem Reused.allSucceed_iff
    (h : Reused (processReport hash evidence sources historyComplete githubRateLimit) db s)
    (hcurrent : db.current = some (snapshotIdOf hash evidence sources)) (hdone : s.Complete) :
    AllSucceed hash evidence sources db s ↔ EvidenceIsCurrent hash evidence sources db := by
  have hphases : ∀ i, s.phases i = .done (.ok
      (processReport hash evidence sources historyComplete githubRateLimit i true)) := by
    intro i
    obtain ⟨result, hresult⟩ := hdone.exists_result i
    rcases h.phases i with hphase | hphase | hphase
    · rw [hphase] at hresult
      exact nomatch hresult
    · rw [hphase] at hresult
      exact nomatch hresult
    · exact hphase
  constructor
  · intro hall
    rw [← h.committed]
    exact hall.current
  · intro hshows
    refine ⟨fun i => ⟨_, hphases i⟩, Or.inl ⟨hcurrent, fun i report hreport => ?_⟩, ?_⟩
    · rw [hphases i] at hreport
      obtain rfl := Except.ok.inj (Phase.done.inj hreport)
      rfl
    · rw [h.committed]
      exact hshows

/-- After a publication, the calls all succeed exactly when none of them is late. -/
theorem Published.allSucceed_iff {committed : Database} {winner : Fin n}
    (h : Published (processReport hash evidence sources historyComplete githubRateLimit) committed
      winner s) (hother : db.current ≠ some (snapshotIdOf hash evidence sources))
    (hshows : EvidenceIsCurrent hash evidence sources committed) (hdone : s.Complete) :
    AllSucceed hash evidence sources db s ↔ ∀ i, (s.phases i).isLate = false := by
  constructor
  · intro hall i
    obtain ⟨report, hreport⟩ := hall.ok i
    rw [hreport]
    rfl
  · -- without a late process all but the winner report an unchanged snapshot
    intro hnone
    have hphases : ∀ i, i ≠ winner → s.phases i = .done (.ok
        (processReport hash evidence sources historyComplete githubRateLimit i true)) := by
      intro i hi
      obtain ⟨result, hresult⟩ := hdone.exists_result i
      rcases h.others i hi with hphase | hphase | hphase | hphase
      · rw [hphase] at hresult
        exact nomatch hresult
      · rw [hphase] at hresult
        exact nomatch hresult
      · exact hphase
      · rw [hnone i] at hphase
        exact nomatch hphase
    refine ⟨fun i => ?_, Or.inr ⟨hother, winner, ⟨_, h.reported, rfl⟩, ?_⟩, ?_⟩
    · by_cases hi : i = winner
      · rw [hi]
        exact ⟨_, h.reported⟩
      · exact ⟨_, hphases i hi⟩
    · rintro i ⟨report, hreport, hchanged⟩
      by_contra hi
      rw [hphases i hi] at hreport
      obtain rfl := Except.ok.inj (Phase.done.inj hreport)
      exact nomatch hchanged
    · rw [h.committed]
      exact hshows

end Claim

section Samples

set_option maxRecDepth 2000

/-- One decision. -/
def oneDecision : PreparedEvidence where
  records := indexBy EvidenceNode.id [⟨"ADR-1", .decision, .current, none, none,
    ⟨.document, "adr.md", none, none⟩⟩]
  edges := ∅
  conflicts := []
  diagnostics := []
  records_keyed := keyedBy_indexBy
  edges_keyed := keyedBy_empty
  edges_closed edge h := by simp [values] at h
  conflicts_closed conflict h := nomatch h

/-- Two processes publish the same evidence into a fresh database. -/
def twoProcesses (schedule : List (Fin 2)) : Processes 2 :=
  (Processes.initial Database.empty).run id oneDecision [] (fun _ => true) (fun _ => none) schedule

/-- Both processes open the store and read the pointer before either of them begins. -/
def overlapping : List (Fin 2) := [0, 1, 0, 1, 0, 0, 0, 1]

/-- The second process starts when the first one is done. -/
def oneAfterTheOther : List (Fin 2) := [0, 0, 0, 0, 0, 1, 1]

end Samples

end Rationale.Engine
