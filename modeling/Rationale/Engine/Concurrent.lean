import Mathlib.Data.Fintype.Basic
import Mathlib.Logic.Function.Basic
import Rationale.Engine.PublishRun
import Rationale.Store.Statement

namespace Rationale.Engine

open Std Rationale.Library Rationale.Store

/-!
# Concurrent publications

Several processes run `publish_evidence` on the same evidence and sources against one database.
SQLite lets one immediate transaction run at a time; a process that finds the database locked waits.

* `Phase`, `Processes`, `step` — one process's next store operation, under any schedule;
* `Transition`, `transition_step` — what a step can do, and why;
* `run_alone` — a process that is not interrupted computes `publishEvidence`.
-/

/-- The statements that fill a candidate with the evidence, in the order of `publish_evidence`. -/
def evidenceStatements (evidence : PreparedEvidence) (sources : List SourceState) :
    List Statement :=
  (values evidence.records).map Statement.record ++ (values evidence.edges).map Statement.edge ++
    evidence.conflicts.map Statement.conflict ++ sources.map Statement.source ++
    (evidence.diagnostics.map quarantineDiagnostic).map Statement.diagnostic

section Statements

/-- A loop of total statements always succeeds. -/
theorem foldlM_execute_total {α : Type} (make : α → Statement)
    (effect : CandidateSnapshot → α → CandidateSnapshot)
    (h : ∀ (candidate : CandidateSnapshot) a,
      candidate.execute (make a) = .ok (effect candidate a)) (l : List α)
    (candidate : CandidateSnapshot) :
    (l.map make).foldlM CandidateSnapshot.execute candidate = .ok (l.foldl effect candidate) := by
  induction l generalizing candidate with
  | nil => rfl
  | cons a l ih =>
    rw [List.map_cons, List.foldlM_cons, h, List.foldl_cons]
    exact ih (effect candidate a)

/-- Filling a candidate is running its statements. -/
theorem publishCandidate_eq_statements (db : Database) (id : String) (evidence : PreparedEvidence)
    (sources : List SourceState) :
    publishCandidate db id evidence sources = (do
      let candidate ← beginCandidate db id
      let candidate ← (evidenceStatements evidence sources).foldlM CandidateSnapshot.execute candidate
      candidate.publish) := by
  have hsources := foldlM_execute_total Statement.source CandidateSnapshot.setSourceState
    (fun _ _ => rfl) sources
  have hdiagnostics := foldlM_execute_total Statement.diagnostic CandidateSnapshot.quarantine
    (fun _ _ => rfl) (evidence.diagnostics.map quarantineDiagnostic)
  unfold publishCandidate evidenceStatements
  simp only [List.foldlM_append, hsources, hdiagnostics, List.foldlM_map, bind_assoc]
  rfl

end Statements

/-- Where a call of `publish_evidence` is. -/
inductive Phase where
  | start
  /-- `EvidenceStore::open` is done. -/
  | opened
  /-- Another snapshot was current, or none. -/
  | outdated
  /-- The write transaction is open, with these statements to go. -/
  | writing (candidate : CandidateSnapshot) (remaining : List Statement)
  | done (result : Except EngineError SyncReport)

namespace Phase

/-- The call holds the write lock. -/
def isWriting : Phase → Bool
  | writing _ _ => true
  | _ => false

/-- The call has read the current pointer, found another snapshot, and not yet returned. -/
def isBusy : Phase → Bool
  | outdated => true
  | writing _ _ => true
  | _ => false

/-- What the call returned. -/
def result? : Phase → Option (Except EngineError SyncReport)
  | done result => some result
  | _ => none

end Phase

/-- A database, and the calls of `n` processes on it. -/
structure Processes (n : Nat) where
  committed : Database
  phases : Fin n → Phase

namespace Processes

variable {n : Nat}

/-- Every process is about to call `publish_evidence`. -/
def initial (db : Database) : Processes n := ⟨db, fun _ => .start⟩

def setPhase (s : Processes n) (i : Fin n) (phase : Phase) : Processes n :=
  { s with phases := Function.update s.phases i phase }

/-- Some process has an immediate transaction open. -/
def locked (s : Processes n) : Bool := decide (∃ i, (s.phases i).isWriting)

variable {s : Processes n} {i j : Fin n} {phase phase' : Phase}

@[simp] theorem phases_setPhase_self : (s.setPhase i phase).phases i = phase := by
  simp [setPhase]

theorem phases_setPhase_ne (h : j ≠ i) : (s.setPhase i phase).phases j = s.phases j := by
  simp [setPhase, h]

@[simp] theorem committed_setPhase : (s.setPhase i phase).committed = s.committed := rfl

@[simp] theorem setPhase_setPhase : (s.setPhase i phase).setPhase i phase' = s.setPhase i phase' := by
  simp [setPhase]

/-- What holds of the process that moves, and of all others as before, holds of all. -/
theorem forall_setPhase {p : Fin n → Phase → Prop} (hi : p i phase)
    (hothers : ∀ j, j ≠ i → p j (s.phases j)) (j : Fin n) : p j ((s.setPhase i phase).phases j) := by
  by_cases hji : j = i
  · obtain rfl := hji
    rwa [phases_setPhase_self]
  · rw [phases_setPhase_ne hji]
    exact hothers j hji

theorem locked_iff : s.locked = true ↔ ∃ i, (s.phases i).isWriting = true := by
  simp [locked]

end Processes

section Step

variable (hash : String → String) (evidence : PreparedEvidence) (sources : List SourceState)
  {n : Nat} (historyComplete : Fin n → Bool)
  (githubRateLimit : Fin n → Option GitHubRateLimitView)

/-- What process `i` reports. -/
def processReport (i : Fin n) (unchanged : Bool) : SyncReport where
  snapshotId := snapshotIdOf hash evidence sources
  unchanged
  records := evidence.records.size
  edges := evidence.edges.size
  conflicts := evidence.sorted.conflicts.length
  quarantined := evidence.sorted.diagnostics.length
  historyComplete := historyComplete i
  staleSources := ((sortSources sources).filter (·.freshness = .stale)).map (·.sourceId)
  githubRateLimit := githubRateLimit i

/-- The next store operation of process `i`.  Opening the store and beginning a candidate need the
    write lock; without it the process waits. -/
def Processes.step (s : Processes n) (i : Fin n) : Processes n :=
  let report := processReport hash evidence sources historyComplete githubRateLimit i
  match s.phases i with
  | .start => if s.locked then s else s.setPhase i .opened
  | .opened =>
    if currentSnapshotId s.committed = some (snapshotIdOf hash evidence sources) then
      s.setPhase i (.done (.ok (report true)))
    else s.setPhase i .outdated
  | .outdated =>
    if s.locked then s
    else match beginCandidate s.committed (snapshotIdOf hash evidence sources) with
      | .error e => s.setPhase i (.done (.error (.store e)))
      | .ok candidate =>
        s.setPhase i (.writing candidate (evidenceStatements evidence.sorted (sortSources sources)))
  | .writing candidate (statement :: remaining) =>
    match candidate.execute statement with
    -- the candidate is dropped, and its transaction rolled back
    | .error e => s.setPhase i (.done (.error (.store e)))
    | .ok candidate => s.setPhase i (.writing candidate remaining)
  | .writing candidate [] =>
    match candidate.publish with
    | .error e => s.setPhase i (.done (.error (.store e)))
    | .ok committed => { s with committed }.setPhase i (.done (.ok (report false)))
  | .done _ => s

/-- The processes take their steps in the order of the schedule. -/
def Processes.run (s : Processes n) (schedule : List (Fin n)) : Processes n :=
  schedule.foldl (Processes.step hash evidence sources historyComplete githubRateLimit) s

end Step

/-- The reasons for each step of a process. -/
inductive Transition (hash : String → String) (evidence : PreparedEvidence)
    (sources : List SourceState) {n : Nat} (report : Fin n → Bool → SyncReport) (s : Processes n)
    (i : Fin n) : Processes n → Prop where
  | waits (h : s.phases i ≠ .opened) : Transition hash evidence sources report s i s
  | opens (h : s.phases i = .start) :
      Transition hash evidence sources report s i (s.setPhase i .opened)
  | reuses (h : s.phases i = .opened)
      (hcurrent : s.committed.current = some (snapshotIdOf hash evidence sources)) :
      Transition hash evidence sources report s i (s.setPhase i (.done (.ok (report i true))))
  | isOutdated (h : s.phases i = .opened)
      (hcurrent : s.committed.current ≠ some (snapshotIdOf hash evidence sources)) :
      Transition hash evidence sources report s i (s.setPhase i .outdated)
  | begins (h : s.phases i = .outdated) (hfree : s.locked = false)
      {candidate : CandidateSnapshot}
      (hbegin : beginCandidate s.committed (snapshotIdOf hash evidence sources) = .ok candidate) :
      Transition hash evidence sources report s i (s.setPhase i
        (.writing candidate (evidenceStatements evidence.sorted (sortSources sources))))
  | isRejected (h : s.phases i = .outdated) {e : StoreError}
      (hbegin : beginCandidate s.committed (snapshotIdOf hash evidence sources) = .error e) :
      Transition hash evidence sources report s i (s.setPhase i (.done (.error (.store e))))
  | executes {candidate next : CandidateSnapshot} {statement : Statement}
      {remaining : List Statement} (h : s.phases i = .writing candidate (statement :: remaining))
      (hok : candidate.execute statement = .ok next) :
      Transition hash evidence sources report s i (s.setPhase i (.writing next remaining))
  | fails {candidate : CandidateSnapshot} {statement : Statement} {remaining : List Statement}
      {e : StoreError} (h : s.phases i = .writing candidate (statement :: remaining))
      (herror : candidate.execute statement = .error e) :
      Transition hash evidence sources report s i (s.setPhase i (.done (.error (.store e))))
  | publishes {candidate : CandidateSnapshot} {committed : Database}
      (h : s.phases i = .writing candidate []) (hok : candidate.publish = .ok committed) :
      Transition hash evidence sources report s i
        (({ s with committed } : Processes n).setPhase i (.done (.ok (report i false))))
  | isNotPublished {candidate : CandidateSnapshot} {e : StoreError}
      (h : s.phases i = .writing candidate []) (herror : candidate.publish = .error e) :
      Transition hash evidence sources report s i (s.setPhase i (.done (.error (.store e))))

section Runs

variable {hash : String → String} {evidence : PreparedEvidence} {sources : List SourceState}
  {n : Nat} {historyComplete : Fin n → Bool} {githubRateLimit : Fin n → Option GitHubRateLimitView}
  {db : Database} {s : Processes n} {i : Fin n}

/-- Every step has one of these reasons. -/
theorem transition_step (s : Processes n) (i : Fin n) :
    Transition hash evidence sources
      (processReport hash evidence sources historyComplete githubRateLimit) s i
      (s.step hash evidence sources historyComplete githubRateLimit i) := by
  cases h : s.phases i with
  | start =>
    simp only [Processes.step, h]
    split
    · exact .waits (by rw [h]; exact nofun)
    · exact .opens h
  | opened =>
    simp only [Processes.step, h]
    split
    next hcurrent => exact .reuses h hcurrent
    next hcurrent => exact .isOutdated h hcurrent
  | outdated =>
    simp only [Processes.step, h]
    split
    · exact .waits (by rw [h]; exact nofun)
    -- the write lock is free: begin the candidate
    next hfree =>
      cases hbegin : beginCandidate s.committed (snapshotIdOf hash evidence sources) with
      | error e => exact .isRejected h hbegin
      | ok candidate => exact .begins h (Bool.eq_false_iff.mpr hfree) hbegin
  | writing candidate remaining =>
    cases remaining with
    | nil =>
      simp only [Processes.step, h]
      cases hpublish : candidate.publish with
      | error e => exact .isNotPublished h hpublish
      | ok committed => exact .publishes h hpublish
    | cons statement remaining =>
      simp only [Processes.step, h]
      cases hexecute : candidate.execute statement with
      | error e => exact .fails h hexecute
      | ok next => exact .executes h hexecute
  | done result =>
    simp only [Processes.step, h]
    exact .waits (by rw [h]; exact nofun)

end Runs

/-! ### One process alone -/

section Alone

variable {hash : String → String} {evidence : PreparedEvidence} {sources : List SourceState}
  {n : Nat} {historyComplete : Fin n → Bool} {githubRateLimit : Fin n → Option GitHubRateLimitView}
  {s : Processes n} {i : Fin n}

/-- Process `i` has returned a result of `publishEvidence`. -/
def Processes.returned (s : Processes n) (i : Fin n) :
    Except EngineError (SyncReport × Database) → Processes n
  | .error e => s.setPhase i (.done (.error e))
  | .ok (report, committed) => ({ s with committed } : Processes n).setPhase i (.done (.ok report))

@[simp] theorem returned_setPhase {phase : Phase} (result : Except EngineError (SyncReport × Database)) :
    (s.setPhase i phase).returned i result = s.returned i result := by
  cases result with
  | error e => exact Processes.setPhase_setPhase
  | ok result => simp [Processes.returned, Processes.setPhase]

/-- A call that has returned takes no more steps. -/
theorem run_done {result : Except EngineError SyncReport} (h : s.phases i = .done result) (k : Nat) :
    s.run hash evidence sources historyComplete githubRateLimit (List.replicate k i) = s := by
  unfold Processes.run
  induction k with
  | zero => rfl
  | succ k ih =>
    have hstep : s.step hash evidence sources historyComplete githubRateLimit i = s := by
      simp only [Processes.step, h]
    rw [List.replicate_succ, List.foldl_cons, hstep, ih]

/-- A writing call runs its statements and publishes. -/
theorem run_writing {candidate : CandidateSnapshot} {remaining : List Statement}
    (h : s.phases i = .writing candidate remaining) :
    s.run hash evidence sources historyComplete githubRateLimit
        (List.replicate (remaining.length + 1) i) =
      s.returned i (((remaining.foldlM CandidateSnapshot.execute candidate >>=
        CandidateSnapshot.publish).mapError EngineError.store).map fun committed =>
          (processReport hash evidence sources historyComplete githubRateLimit i false, committed)) := by
  induction remaining generalizing s candidate with
  | nil =>
    show s.step hash evidence sources historyComplete githubRateLimit i = s.returned i
      ((candidate.publish.mapError EngineError.store).map _)
    simp only [Processes.step, h]
    cases candidate.publish with
    | error e => rfl
    | ok committed => rfl
  | cons statement remaining ih =>
    rw [List.length_cons, List.replicate_succ, List.foldlM_cons]
    unfold Processes.run
    rw [List.foldl_cons, ← Processes.run]
    simp only [Processes.step, h]
    cases candidate.execute statement with
    | error e => exact run_done Processes.phases_setPhase_self _
    | ok next =>
      have hrest := ih (s := s.setPhase i (.writing next remaining)) Processes.phases_setPhase_self
      rw [returned_setPhase] at hrest
      exact hrest

/-- **A process that is not interrupted computes `publishEvidence`.** -/
theorem run_alone (hstart : s.phases i = .start) (hfree : s.locked = false) :
    ∃ k, s.run hash evidence sources historyComplete githubRateLimit (List.replicate k i) =
      s.returned i (publishEvidence hash s.committed evidence sources (historyComplete i)
        (githubRateLimit i)) := by
  have hopen : s.step hash evidence sources historyComplete githubRateLimit i =
      s.setPhase i .opened := by
    simp only [Processes.step, hstart, hfree]
    rfl
  by_cases hcurrent : currentSnapshotId s.committed = some (snapshotIdOf hash evidence sources)
  · -- two steps: open the store, and read the pointer
    have hread : (s.setPhase i .opened).step hash evidence sources historyComplete githubRateLimit i =
        s.setPhase i (.done (.ok
          (processReport hash evidence sources historyComplete githubRateLimit i true))) := by
      simp [Processes.step, hcurrent]
    refine ⟨2, ?_⟩
    show ((s.step hash evidence sources historyComplete githubRateLimit i).step hash evidence sources
      historyComplete githubRateLimit i) = _
    have hresult : publishEvidence hash s.committed evidence sources (historyComplete i)
        (githubRateLimit i) = .ok
          (processReport hash evidence sources historyComplete githubRateLimit i true,
            s.committed) := if_pos hcurrent
    rw [hopen, hread, hresult]
    rfl
  · have hread : (s.setPhase i .opened).step hash evidence sources historyComplete githubRateLimit i =
        s.setPhase i .outdated := by
      simp [Processes.step, hcurrent]
    -- nobody else holds the write lock, and this call does not hold it yet
    have hunlocked : (s.setPhase i .outdated).locked = false := by
      rw [Bool.eq_false_iff, Ne, Processes.locked_iff] at hfree ⊢
      rintro ⟨j, hj⟩
      by_cases hji : j = i
      · rw [hji, Processes.phases_setPhase_self] at hj
        exact nomatch hj
      · rw [Processes.phases_setPhase_ne hji] at hj
        exact hfree ⟨j, hj⟩
    have hresult : publishEvidence hash s.committed evidence sources (historyComplete i)
        (githubRateLimit i) = (((publishCandidate s.committed (snapshotIdOf hash evidence sources)
          evidence.sorted (sortSources sources)).mapError EngineError.store).map fun committed =>
          (processReport hash evidence sources historyComplete githubRateLimit i false,
            committed)) := if_neg hcurrent
    rw [hresult, publishCandidate_eq_statements]
    cases hbegin : beginCandidate s.committed (snapshotIdOf hash evidence sources) with
    | error e =>
      -- the third step returns the error of `beginCandidate`
      refine ⟨3, ?_⟩
      show (((s.step hash evidence sources historyComplete githubRateLimit i).step hash evidence
        sources historyComplete githubRateLimit i).step hash evidence sources historyComplete
          githubRateLimit i) = _
      rw [hopen, hread]
      simp only [Processes.step, Processes.phases_setPhase_self, hunlocked,
        Processes.committed_setPhase, hbegin, Processes.setPhase_setPhase]
      rfl
    | ok candidate =>
      -- three steps to the first statement, one for each statement, and one to publish
      let statements := evidenceStatements evidence.sorted (sortSources sources)
      have hwrite : (s.setPhase i .outdated).step hash evidence sources historyComplete
          githubRateLimit i = s.setPhase i (.writing candidate statements) := by
        simp only [Processes.step, Processes.phases_setPhase_self, hunlocked,
          Processes.committed_setPhase, hbegin, Processes.setPhase_setPhase]
        rfl
      have hrun := @run_writing hash evidence sources n historyComplete githubRateLimit
        (s.setPhase i (.writing candidate statements)) i candidate statements
        Processes.phases_setPhase_self
      rw [returned_setPhase] at hrun
      refine ⟨statements.length + 1 + 3, ?_⟩
      show ((((s.step hash evidence sources historyComplete githubRateLimit i).step hash evidence
        sources historyComplete githubRateLimit i).step hash evidence sources historyComplete
          githubRateLimit i).run hash evidence sources historyComplete githubRateLimit
            (List.replicate (statements.length + 1) i)) = _
      rw [hopen, hread, hwrite, hrun]
      rfl

end Alone

end Rationale.Engine
