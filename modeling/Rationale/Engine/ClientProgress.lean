import Rationale.Engine.Clients
import Rationale.Engine.Plan

namespace Rationale.Engine

open Std Rationale.Library Rationale.Git Rationale.GitHub Rationale.Store

/-!
# Clients come to an end

A client waits only while another one holds the write lock, and whoever holds it can go on until it
gives it back.

* `finish_asking`, `finish_preparing`, `finish_publishing` — a client that is not kept waiting ends
  its call by its own turns;
* `exists_completion` — whatever has happened so far, all calls can still be brought to their end.
-/

variable {hash : String → String} {n : Nat} {site : Site n} {i : Fin n}

/-- Client `i` proceeds, `k` times. -/
def proceed (hash : String → String) {n : Nat} (site : Site n) (i : Fin n) (k : Nat) : Site n :=
  site.run (siteMove hash) (List.replicate k (i, .proceed))

theorem proceed_succ (site : Site n) (i : Fin n) (k : Nat) :
    proceed hash site i (k + 1) = proceed hash (site.step (siteMove hash) (i, .proceed)) i k := rfl

/-- Client `i` gets by its own turns to where the property holds of it. -/
def Gets (hash : String → String) {n : Nat} (site : Site n) (i : Fin n) (P : Client → Prop) : Prop :=
  ∃ k, P ((proceed hash site i k).locals i)

/-- The call has published, or failed to. -/
def HasPublished (p : Publication) (client : Client) : Prop :=
  ∃ result, client = .publishing p (.done result)

theorem gets_now {P : Client → Prop} (h : P (site.locals i)) : Gets hash site i P := ⟨0, h⟩

/-- One more turn of the client comes first. -/
theorem Gets.after {P : Client → Prop}
    (h : Gets hash (site.step (siteMove hash) (i, .proceed)) i P) : Gets hash site i P := by
  obtain ⟨k, hk⟩ := h
  exact ⟨k + 1, hk⟩

theorem Gets.imp {P Q : Client → Prop} (h : Gets hash site i P) (himp : ∀ client, P client → Q client) :
    Gets hash site i Q := by
  obtain ⟨k, hk⟩ := h
  exact ⟨k, himp _ hk⟩

section Turns

variable {client next : Client}

theorem isLocked_eq_false : isLocked site = false ↔ ∀ j, (site.locals j).isWriting = false := by
  rw [Bool.eq_false_iff, Ne, isLocked_iff]
  simp

/-- The other clients are not affected. -/
theorem proceed_locals_ne {j : Fin n} (h : j ≠ i) (k : Nat) :
    (proceed hash site i k).locals j = site.locals j := by
  induction k generalizing site with
  | zero => rfl
  | succ k ih =>
    rw [proceed_succ, ih]
    exact Pool.step_locals_ne h

/-- What client `i` does when it proceeds. -/
theorem step_proceed (hash : String → String) (h : site.locals i = client)
    (hover : client.isOver = false) :
    (site.step (siteMove hash) (i, .proceed)).shared =
        (client.advance hash (isLocked site) site.shared).1 ∧
      (site.step (siteMove hash) (i, .proceed)).locals i =
        (client.advance hash (isLocked site) site.shared).2 := by
  have hmove : siteMove hash site i .proceed = client.advance hash (isLocked site) site.shared := by
    show (site.locals i).turn hash (isLocked site) site.shared .proceed = _
    rw [h]
    exact if_neg (by rw [hover]; exact Bool.false_ne_true)
  constructor
  · rw [Pool.step_shared, hmove]
  · rw [Pool.step_locals_self, hmove]

/-- A client that does not take the lock leaves it free. -/
theorem isLocked_step (hfree : isLocked site = false) (turn : Turn)
    (hnext : ((site.step (siteMove hash) (i, turn)).locals i).isWriting = false) :
    isLocked (site.step (siteMove hash) (i, turn)) = false := by
  rw [isLocked_eq_false] at hfree ⊢
  intro j
  by_cases hj : j = i
  · rw [hj]
    exact hnext
  · rw [Pool.step_locals_ne hj]
    exact hfree j

end Turns

/-! ### One client -/

section One

/-- **A question** that is not kept waiting is answered. -/
theorem finish_asking {question : StoreQuery Reply} (h : site.locals i = .asking question)
    (hfree : isLocked site = false) :
    Gets hash site i (· = .asking (.done (question.eval site.shared))) := by
  induction question generalizing site with
  | done result => exact gets_now h
  | await next ih =>
    obtain ⟨hshared, hlocal⟩ := step_proceed hash h rfl
    rw [hfree] at hshared hlocal
    have hnext := ih hlocal (isLocked_step hfree .proceed (by rw [hlocal]; rfl))
    rw [hshared] at hnext
    exact hnext.after
  | read next ih =>
    obtain ⟨hshared, hlocal⟩ := step_proceed hash h rfl
    have hnext := ih site.shared hlocal (isLocked_step hfree .proceed (by rw [hlocal]; rfl))
    rw [hshared] at hnext
    exact hnext.after

/-- An open transaction is brought to its end, whoever waits for it. -/
theorem finish_writing {p : Publication} {candidate : CandidateSnapshot} {remaining : List Statement}
    (h : site.locals i = .publishing p (.writing candidate remaining)) :
    Gets hash site i (HasPublished p) := by
  induction remaining generalizing site candidate with
  | nil =>
    obtain ⟨-, hlocal⟩ := step_proceed hash h rfl
    refine Gets.after (gets_now ?_)
    rw [hlocal]
    simp only [Client.advance, Phase.advance]
    cases candidate.publish with
    | error e => exact ⟨_, rfl⟩
    | ok committed => exact ⟨_, rfl⟩
  | cons statement remaining ih =>
    obtain ⟨-, hlocal⟩ := step_proceed hash h rfl
    simp only [Client.advance, Phase.advance] at hlocal
    apply Gets.after
    cases hexecute : candidate.execute statement with
    | error e =>
      rw [hexecute] at hlocal
      exact gets_now ⟨_, hlocal⟩
    | ok next =>
      rw [hexecute] at hlocal
      exact ih hlocal

/-- **A publication** that is not kept waiting ends. -/
theorem finish_publishing {p : Publication} {phase : Phase} (h : site.locals i = .publishing p phase)
    (hfree : isLocked site = false) :
    Gets hash site i (HasPublished p) := by
  -- the phases in reverse order, each one leading to those before
  have houtdated : ∀ {site : Site n}, site.locals i = .publishing p .outdated →
      isLocked site = false →
      Gets hash site i (HasPublished p) := by
    intro site h hfree
    obtain ⟨-, hlocal⟩ := step_proceed hash h rfl
    rw [hfree] at hlocal
    simp only [Client.advance, Phase.advance] at hlocal
    apply Gets.after
    cases hbegin : beginCandidate site.shared (p.snapshotId hash) with
    | error e =>
      rw [hbegin] at hlocal
      exact gets_now ⟨_, hlocal⟩
    | ok candidate =>
      rw [hbegin] at hlocal
      exact finish_writing hlocal
  have hopened : ∀ {site : Site n}, site.locals i = .publishing p .opened →
      isLocked site = false →
      Gets hash site i (HasPublished p) := by
    intro site h hfree
    obtain ⟨-, hlocal⟩ := step_proceed hash h rfl
    simp only [Client.advance, Phase.advance] at hlocal
    apply Gets.after
    by_cases hcurrent : currentSnapshotId site.shared = some (p.snapshotId hash)
    · rw [if_pos hcurrent] at hlocal
      exact gets_now ⟨_, hlocal⟩
    · rw [if_neg hcurrent] at hlocal
      exact houtdated hlocal (isLocked_step hfree .proceed (by rw [hlocal]; rfl))
  cases phase with
  | start =>
    obtain ⟨-, hlocal⟩ := step_proceed hash h rfl
    rw [hfree] at hlocal
    exact Gets.after (hopened hlocal (isLocked_step hfree .proceed (by rw [hlocal]; rfl)))
  | opened => exact hopened h hfree
  | outdated => exact houtdated h hfree
  | writing candidate remaining => exact finish_writing h
  | done result => exact gets_now ⟨result, h⟩

/-- **A synchronization** that is not kept waiting prepares its publication and makes it. -/
theorem finish_preparing {prepare : StoreQuery Publication} (h : site.locals i = .preparing prepare)
    (hfree : isLocked site = false) :
    (∃ e, prepare.eval site.shared = .error e ∧
        Gets hash site i (· = .preparing (.done (.error e)))) ∨
      ∃ p, prepare.eval site.shared = .ok p ∧ Gets hash site i (HasPublished p) := by
  induction prepare generalizing site with
  | done result =>
    cases result with
    | error e => exact Or.inl ⟨e, rfl, gets_now h⟩
    | ok p =>
      obtain ⟨-, hlocal⟩ := step_proceed hash h rfl
      refine Or.inr ⟨p, rfl, Gets.after ?_⟩
      exact finish_publishing hlocal (isLocked_step hfree .proceed (by rw [hlocal]; rfl))
  | await next ih =>
    obtain ⟨hshared, hlocal⟩ := step_proceed hash h rfl
    rw [hfree] at hshared hlocal
    have hnext := ih hlocal (isLocked_step hfree .proceed (by rw [hlocal]; rfl))
    rw [hshared] at hnext
    exact hnext.imp (fun ⟨e, heval, hgets⟩ => ⟨e, heval, hgets.after⟩)
      (fun ⟨p, heval, hgets⟩ => ⟨p, heval, hgets.after⟩)
  | read next ih =>
    obtain ⟨hshared, hlocal⟩ := step_proceed hash h rfl
    have hnext := ih site.shared hlocal (isLocked_step hfree .proceed (by rw [hlocal]; rfl))
    rw [hshared] at hnext
    exact hnext.imp (fun ⟨e, heval, hgets⟩ => ⟨e, heval, hgets.after⟩)
      (fun ⟨p, heval, hgets⟩ => ⟨p, heval, hgets.after⟩)

/-- **Each client** that is not kept waiting ends its call by its own turns. -/
theorem gets_isOver (h : isLocked site = false ∨ (site.locals i).isWriting = true) :
    Gets hash site i (·.isOver = true) := by
  have hpublished : ∀ {site : Site n} {p : Publication}, Gets hash site i (HasPublished p) →
      Gets hash site i (·.isOver = true) := by
    intro site p hgets
    refine hgets.imp (fun client hclient => ?_)
    obtain ⟨result, rfl⟩ := hclient
    rfl
  have hpreparing : ∀ {site : Site n} {prepare : StoreQuery Publication},
      site.locals i = .preparing prepare → isLocked site = false →
      Gets hash site i (·.isOver = true) := by
    intro site prepare h hfree
    rcases finish_preparing h hfree with ⟨e, -, hgets⟩ | ⟨p, -, hgets⟩
    · exact hgets.imp (fun client hclient => by rw [hclient]; rfl)
    · exact hpublished hgets
  have hasking : ∀ {site : Site n} {question : StoreQuery Reply},
      site.locals i = .asking question → isLocked site = false →
      Gets hash site i (·.isOver = true) := by
    intro site question h hfree
    exact (finish_asking h hfree).imp (fun client hclient => by rw [hclient]; rfl)
  have hwaits : ∀ client, site.locals i = client → client.isWriting = false →
      isLocked site = false := by
    intro client hclient hnot
    rw [hclient, hnot] at h
    exact h.resolve_right Bool.false_ne_true
  cases hclient : site.locals i with
  | called command =>
    have hfree := hwaits _ hclient rfl
    apply Gets.after
    cases command with
    | sync prepare =>
      obtain ⟨-, hlocal⟩ := step_proceed hash hclient rfl
      exact hpreparing hlocal (isLocked_step hfree .proceed (by rw [hlocal]; rfl))
    | ask question =>
      obtain ⟨-, hlocal⟩ := step_proceed hash hclient rfl
      exact hasking hlocal (isLocked_step hfree .proceed (by rw [hlocal]; rfl))
  | preparing prepare => exact hpreparing hclient (hwaits _ hclient rfl)
  | asking question => exact hasking hclient (hwaits _ hclient rfl)
  | killed => exact gets_now (by rw [hclient]; rfl)
  | publishing p phase =>
    cases hwriting : phase.isWriting with
    | false => exact hpublished (finish_publishing hclient (hwaits _ hclient hwriting))
    | true =>
      -- the client holds the lock itself
      cases phase with
      | writing candidate remaining => exact hpublished (finish_writing hclient)
      | start => cases hwriting
      | opened => cases hwriting
      | outdated => cases hwriting
      | done result => cases hwriting

end One

/-! ### All clients -/

theorem isWriting_of_isOver {client : Client} (h : client.isOver = true) :
    client.isWriting = false := by
  cases client with
  | publishing p phase =>
    cases phase with
    | done result => rfl
    | start => cases h
    | opened => cases h
    | outdated => cases h
    | writing candidate remaining => cases h
  | called command => rfl
  | preparing prepare => rfl
  | asking question => rfl
  | killed => rfl

/-- One client after the other ends its call, while nobody holds the lock. -/
theorem exists_completion_of_free (waiting : List (Fin n)) (hfree : isLocked site = false)
    (hwaiting : ∀ j, j ∉ waiting → (site.locals j).isOver = true) :
    ∃ schedule : List (Fin n), ∀ j, ((site.run (siteMove hash)
      (schedule.map (·, Turn.proceed))).locals j).isOver = true := by
  induction waiting generalizing site with
  | nil => exact ⟨[], fun j => hwaiting j List.not_mem_nil⟩
  | cons i waiting ih =>
    obtain ⟨k, hk⟩ := @gets_isOver hash n site i (Or.inl hfree)
    have hnext : isLocked (proceed hash site i k) = false := by
      rw [isLocked_eq_false] at hfree ⊢
      intro j
      by_cases hj : j = i
      · rw [hj]
        exact isWriting_of_isOver hk
      · rw [proceed_locals_ne hj]
        exact hfree j
    have hrest : ∀ j, j ∉ waiting → ((proceed hash site i k).locals j).isOver = true := by
      intro j hj
      by_cases hji : j = i
      · rw [hji]
        exact hk
      · rw [proceed_locals_ne hji]
        exact hwaiting j (by simp [hji, hj])
    obtain ⟨schedule, hschedule⟩ := ih hnext hrest
    refine ⟨List.replicate k i ++ schedule, fun j => ?_⟩
    have hrun : site.run (siteMove hash) ((List.replicate k i ++ schedule).map (·, Turn.proceed)) =
        (proceed hash site i k).run (siteMove hash) (schedule.map (·, Turn.proceed)) := by
      simp [proceed, Pool.run, List.foldl_append]
    rw [hrun]
    exact hschedule j

/-- **No client is ever stuck.**  Whatever has happened so far, there is a way to bring every call to
    its end in which no store operation fails and nobody is killed. -/
theorem exists_completion (hreachable : Reachable site.shared) (hcalled : Uncalled site)
    (past : List (Fin n × Turn)) :
    ∃ future : List (Fin n), ∀ i, ((site.run (siteMove hash)
      (past ++ future.map (·, Turn.proceed))).locals i).isOver = true := by
  have hvalid := (@siteValid_of_uncalled hash n site hreachable hcalled).run past
  have happend : ∀ future, site.run (siteMove hash) (past ++ future) =
      (site.run (siteMove hash) past).run (siteMove hash) future := by
    intro future
    simp [Pool.run, List.foldl_append]
  simp only [happend]
  generalize site.run (siteMove hash) past = site at hvalid
  cases hlocked : isLocked site with
  | false =>
    exact exists_completion_of_free (List.finRange n) hlocked
      (fun j hj => absurd (List.mem_finRange j) hj)
  | true =>
    -- the client that holds the lock ends first
    obtain ⟨i, hi⟩ := isLocked_iff.mp hlocked
    obtain ⟨k, hk⟩ := @gets_isOver hash n site i (Or.inr hi)
    have hfree : isLocked (proceed hash site i k) = false := by
      rw [isLocked_eq_false]
      intro j
      by_cases hj : j = i
      · rw [hj]
        exact isWriting_of_isOver hk
      · rw [proceed_locals_ne hj, Bool.eq_false_iff]
        exact fun hwriting => hj (hvalid.oneWriter j i hwriting hi)
    obtain ⟨schedule, hschedule⟩ := exists_completion_of_free (List.finRange n) hfree
      (fun j hj => absurd (List.mem_finRange j) hj)
    refine ⟨List.replicate k i ++ schedule, fun j => ?_⟩
    have hrun : site.run (siteMove hash) ((List.replicate k i ++ schedule).map (·, Turn.proceed)) =
        (proceed hash site i k).run (siteMove hash) (schedule.map (·, Turn.proceed)) := by
      simp [proceed, Pool.run, List.foldl_append]
    rw [hrun]
    exact hschedule j

/-- A GitHub synchronization and a local one, on a fresh database. -/
def syncSite : Site 2 where
  shared := Database.empty
  locals i :=
    if i.val = 0 then .called (.sync (githubSyncQuery id (fun _ => none) noParsers
      (historyInputs [⟨"a", "First", 0, []⟩]) widget (fun _ => .failed)))
    else .called (.sync (localSyncQuery id (fun _ => none) noParsers (historyInputs [])))

theorem uncalled_syncSite : Uncalled syncSite := by
  intro i
  show ∃ command, (if i.val = 0 then _ else _) = Client.called command
  split
  · exact ⟨_, rfl⟩
  · exact ⟨_, rfl⟩

/-- The first client can still end its call after the second one was killed. -/
theorem exists_completion_killed : ∃ future : List (Fin 2), ∀ i, ((syncSite.run (siteMove id)
    ([(0, .proceed), (1, .proceed), (1, .kill)] ++ future.map (·, Turn.proceed))).locals i).isOver =
      true :=
  exists_completion Reachable.empty uncalled_syncSite [(0, .proceed), (1, .proceed), (1, .kill)]

end Rationale.Engine
