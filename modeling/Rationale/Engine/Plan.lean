import Mathlib.Data.List.Pairwise
import Rationale.Library.Scan
import Rationale.Engine.SyncRun

namespace Rationale.Engine

open Std Rationale.Library Rationale.Docs Rationale.Git Rationale.GitHub Rationale.Store

/-!
# Planned runs

What a sequence of calls publishes can be computed without a database, as long as each call
publishes something new: a call depends on the database only through the slice that the call before
it published.

* `plan` — the publications of a sequence of calls;
* `PriorsLoad` — every prior slice is within the limits under which it is read;
* `Synced.eq_plan` — a run with new identifiers throughout follows its plan;
* `exists_synced_iff` — it goes through exactly when the planned publications agree on shared
  identifiers and every prior slice can be read.
-/

/-- What a snapshot of the publication reads back as. -/
def Publication.slice (hash : String → String) (p : Publication) : GraphSlice :=
  evidenceSlice (p.snapshotId hash) p.evidence.sorted (sortSources p.sources)

section Slices

variable {hash : String → String} {db : Database} {p : Publication} {slice : GraphSlice}

/-- After a publication its slice is the current one. -/
theorem currentSlice_published (h : Consistent db p.evidence) :
    currentSlice (p.published hash db) = some (p.slice hash) := by
  have hsorted : Consistent db p.evidence.sorted := ⟨h.records, h.edges⟩
  exact currentSlice_withEvidence hsorted

/-- The first publication has nothing to agree with. -/
theorem consistent_empty (p : Publication) : Consistent Database.empty p.evidence := by
  have htracks : Tracks id [] Database.empty := tracks_empty
  exact htracks.consistent (fun q hq => absurd hq List.not_mem_nil)

/-- By itself every publication goes through. -/
theorem publishes_empty (p : Publication) :
    p.Publishes hash Database.empty (p.published hash Database.empty) := by
  have hnew : p.snapshotId hash ∉ Database.empty.snapshots := by
    simp [Database.empty]
  have hcurrent : Database.empty.current ≠ some (p.snapshotId hash) := by
    simp [Database.empty]
  exact publishes_iff.mpr (Or.inr ⟨hcurrent, hnew, consistent_empty p, rfl⟩)

end Slices

section Plans

variable (hash : String → String) (timestamp : Int → Option String) (parsers : Parsers)

/-- The slice of the last publication. -/
def lastSlice (publications : List Publication) : Option GraphSlice :=
  publications.getLast?.map (·.slice hash)

/-- What the calls publish, when each of them publishes something new. -/
def plan (calls : List SyncCall) : List Publication :=
  scan (fun last call => call.publication hash timestamp parsers (last.map (·.slice hash))) calls

/-- Every call can read the slice that is planned before it. -/
def PriorsLoad (calls : List SyncCall) : Prop :=
  ∀ before call after, calls = before ++ call :: after →
    PriorLoads (lastSlice hash (plan hash timestamp parsers before)) call

/-- Publications with different identifiers throughout. -/
def NewIds (publications : List Publication) : Prop :=
  publications.Pairwise (fun p q => p.snapshotId hash ≠ q.snapshotId hash)

end Plans

section Runs

variable {hash : String → String} {timestamp : Int → Option String} {parsers : Parsers}
  {condition : CallCondition} {calls : List SyncCall} {call : SyncCall}
  {publications : List Publication} {db : Database}

theorem plan_concat : plan hash timestamp parsers (calls ++ [call]) =
    plan hash timestamp parsers calls ++ [call.publication hash timestamp parsers
      (lastSlice hash (plan hash timestamp parsers calls))] :=
  scan_concat call

theorem lastSlice_concat {p : Publication} :
    lastSlice hash (publications ++ [p]) = some (p.slice hash) := by
  unfold lastSlice
  rw [List.getLast?_concat]
  rfl

theorem newIds_concat {p : Publication} : NewIds hash (publications ++ [p]) ↔
    NewIds hash publications ∧ ∀ q ∈ publications, q.snapshotId hash ≠ p.snapshotId hash := by
  unfold NewIds
  rw [List.pairwise_append]
  simp

/-- A publication with a new identifier is always made, never skipped. -/
theorem publishes_new_iff {p : Publication} {db' : Database} (h : Tracks hash publications db)
    (hnew : ∀ q ∈ publications, q.snapshotId hash ≠ p.snapshotId hash) :
    p.Publishes hash db db' ↔ Consistent db p.evidence ∧ db' = p.published hash db := by
  have hid : p.snapshotId hash ∉ db.snapshots := by
    rw [h.snapshots]
    exact fun ⟨q, hq, heq⟩ => hnew q hq heq
  have hcurrent : db.current ≠ some (p.snapshotId hash) := by
    rw [h.current]
    intro heq
    obtain ⟨q, hq, heq⟩ := Option.map_eq_some_iff.mp heq
    exact hnew q (List.mem_of_getLast? hq) heq
  rw [publishes_iff]
  constructor
  · rintro (⟨heq, -⟩ | ⟨-, -, hconsistent, rfl⟩)
    · exact absurd heq hcurrent
    · exact ⟨hconsistent, rfl⟩
  · exact fun ⟨hconsistent, heq⟩ => Or.inr ⟨hcurrent, hid, hconsistent, heq⟩

/-- The tables agree with evidence exactly when all earlier evidence does. -/
theorem Tracks.consistent_iff {p : Publication} (h : Tracks hash publications db) :
    Consistent db p.evidence ↔ ∀ q ∈ publications, AgreeOnIds q p := by
  constructor
  · intro hconsistent q hq
    constructor
    · intro a ha b hb hid
      have hstored := h.stored_records q hq a ha
      rw [hid] at hstored
      exact hconsistent.records b hb a hstored
    · intro a ha b hb hid
      have hstored := h.stored_edges q hq a ha
      rw [hid] at hstored
      exact hconsistent.edges b hb a hstored
  · exact h.consistent

/-- **Planned runs**: a run whose planned publications have new identifiers makes them, one after
    the other. -/
theorem Synced.eq_plan (h : Synced hash timestamp parsers condition calls publications db)
    (hnew : NewIds hash (plan hash timestamp parsers calls)) :
    publications = plan hash timestamp parsers calls ∧ Tracks hash publications db ∧
      currentSlice db = lastSlice hash publications := by
  induction h with
  | nil => exact ⟨rfl, tracks_empty, rfl⟩
  | @snoc calls publications db db' call report _ _ hcall ih =>
    rw [plan_concat, newIds_concat] at hnew
    obtain ⟨rfl, htracks, hslice⟩ := ih hnew.1
    have hpublish := publishes_of_run hcall
    rw [hslice] at hpublish ⊢
    obtain ⟨hconsistent, rfl⟩ := (publishes_new_iff htracks hnew.2).mp hpublish
    refine ⟨plan_concat.symm, htracks.snoc hpublish (isCurrent_published hconsistent), ?_⟩
    rw [lastSlice_concat]
    exact currentSlice_published hconsistent

/-- The calls before the last one, and the last one. -/
theorem priorsLoad_concat : PriorsLoad hash timestamp parsers (calls ++ [call]) ↔
    PriorsLoad hash timestamp parsers calls ∧
      PriorLoads (lastSlice hash (plan hash timestamp parsers calls)) call := by
  constructor
  · intro h
    refine ⟨fun before other after heq => h before other (after ++ [call]) ?_, h calls call [] rfl⟩
    rw [heq, List.append_assoc, List.cons_append]
  · rintro ⟨h, hlast⟩ before other after heq
    rcases List.eq_nil_or_concat after with rfl | ⟨init, last, rfl⟩
    · obtain ⟨rfl, hcall⟩ := List.append_inj' heq rfl
      obtain rfl := List.singleton_inj.mp hcall
      exact hlast
    · have heq' : calls ++ [call] = (before ++ other :: init) ++ [last] := by
        rw [heq, List.concat_eq_append, List.append_assoc, List.cons_append]
      obtain ⟨rfl, -⟩ := List.append_inj' heq' rfl
      exact h before other init rfl

/-- The first call has nothing to read. -/
theorem priorLoads_none (call : SyncCall) : PriorLoads none call := by
  cases call with
  | offline inputs => trivial
  | online inputs repository outcome => exact fun _ h => nomatch h

theorem priorsLoad_nil : PriorsLoad hash timestamp parsers [] :=
  fun before call after heq => absurd heq.symm (by simp)

/-- Of two calls only the second one has a snapshot to read. -/
theorem priorsLoad_pair {first second : SyncCall} :
    PriorsLoad hash timestamp parsers [first, second] ↔
      PriorLoads (lastSlice hash (plan hash timestamp parsers [first])) second := by
  have hfirst : PriorsLoad hash timestamp parsers [first] :=
    (@priorsLoad_concat hash timestamp parsers [] first).mpr ⟨priorsLoad_nil, priorLoads_none first⟩
  have hpair := @priorsLoad_concat hash timestamp parsers [first] second
  exact hpair.trans (and_iff_right hfirst)

/-- One more call on a run that followed its plan. -/
theorem Synced.exists_run_iff
    (h : Synced hash timestamp parsers condition calls publications db)
    (hnew : NewIds hash (plan hash timestamp parsers (calls ++ [call]))) :
    (∃ report db', call.run hash timestamp parsers db = .ok (report, db')) ↔
      PriorLoads (lastSlice hash (plan hash timestamp parsers calls)) call ∧
        ∀ q ∈ plan hash timestamp parsers calls, AgreeOnIds q (call.publication hash timestamp
          parsers (lastSlice hash (plan hash timestamp parsers calls))) := by
  rw [plan_concat, newIds_concat] at hnew
  obtain ⟨rfl, htracks, hslice⟩ := h.eq_plan hnew.1
  rw [exists_run_eq_ok_iff h.reachable.valid, hslice, ← htracks.consistent_iff]
  refine and_congr_right (fun _ => ?_)
  simp only [publishes_new_iff htracks hnew.2]
  exact ⟨fun ⟨_, hconsistent, _⟩ => hconsistent, fun hconsistent => ⟨_, hconsistent, rfl⟩⟩

theorem synced_concat : (∃ publications db,
      Synced hash timestamp parsers condition (calls ++ [call]) publications db) ↔
    ∃ publications db, Synced hash timestamp parsers condition calls publications db ∧
      condition calls db call ∧
      ∃ report db', call.run hash timestamp parsers db = .ok (report, db') := by
  constructor
  · rintro ⟨publications', db', h⟩
    generalize heq : calls ++ [call] = calls' at h
    cases h with
    | nil => exact absurd heq (by simp)
    | snoc h hcondition hcall =>
      obtain ⟨rfl, hlast⟩ := List.append_inj' heq rfl
      obtain rfl := List.singleton_inj.mp hlast
      exact ⟨_, _, h, hcondition, _, _, hcall⟩
  · rintro ⟨publications, db, h, hcondition, report, db', hcall⟩
    exact ⟨_, _, h.snoc hcondition hcall⟩

/-- Different identifiers throughout are free of collisions. -/
theorem NewIds.collisionFree (h : NewIds hash publications) : CollisionFree hash publications := by
  have hsymm : Std.Symm (fun p q : Publication => p.snapshotId hash ≠ q.snapshotId hash) :=
    ⟨fun _ _ hne => hne.symm⟩
  intro p hp q hq heq
  by_cases hpq : p = q
  · rw [hpq]
    exact SameState.refl q
  · exact absurd heq (List.Pairwise.forall h hp hq hpq)

/-- A run goes on with a call that can read its prior slice and agrees with all before it. -/
theorem Synced.next (h : Synced hash timestamp parsers condition calls publications db)
    (hnew : NewIds hash (plan hash timestamp parsers (calls ++ [call])))
    (hcondition : condition calls db call)
    (hload : PriorLoads (lastSlice hash (plan hash timestamp parsers calls)) call)
    (hagree : ∀ q ∈ plan hash timestamp parsers calls, AgreeOnIds q (call.publication hash timestamp
      parsers (lastSlice hash (plan hash timestamp parsers calls)))) :
    ∃ db', Synced hash timestamp parsers condition (calls ++ [call])
      (plan hash timestamp parsers (calls ++ [call])) db' := by
  have hcall := (h.exists_run_iff hnew).mpr ⟨hload, hagree⟩
  obtain ⟨publications', db', hrun⟩ := synced_concat.mpr ⟨_, _, h, hcondition, hcall⟩
  obtain ⟨rfl, -, -⟩ := hrun.eq_plan hnew
  exact ⟨db', hrun⟩

/-- A run of two calls. -/
theorem synced_pair {first second : SyncCall} (hfirst : condition [] Database.empty first)
    (hsecond : ∀ db, currentSlice db = lastSlice hash (plan hash timestamp parsers [first]) →
      condition [first] db second)
    (hnew : NewIds hash (plan hash timestamp parsers [first, second]))
    (hload : PriorLoads (lastSlice hash (plan hash timestamp parsers [first])) second)
    (hagree : ∀ q ∈ plan hash timestamp parsers [first], AgreeOnIds q (second.publication hash
      timestamp parsers (lastSlice hash (plan hash timestamp parsers [first])))) :
    ∃ db, Synced hash timestamp parsers condition [first, second]
      (plan hash timestamp parsers [first, second]) db := by
  have hnew' : NewIds hash (plan hash timestamp parsers [first]) := List.pairwise_singleton _ _
  obtain ⟨db, hrun⟩ := Synced.nil.next hnew' hfirst (priorLoads_none first) (fun _ h => absurd h List.not_mem_nil)
  obtain ⟨-, -, hslice⟩ := hrun.eq_plan hnew'
  exact hrun.next hnew (hsecond db hslice) hload hagree

/-- **When a planned run goes through.** -/
theorem exists_synced_iff (hnew : NewIds hash (plan hash timestamp parsers calls)) :
    (∃ publications db, Synced hash timestamp parsers (fun _ _ _ => True) calls publications db) ↔
      (plan hash timestamp parsers calls).Pairwise AgreeOnIds ∧
        PriorsLoad hash timestamp parsers calls := by
  induction calls using List.reverseRecOn with
  | nil =>
    exact ⟨fun _ => ⟨List.Pairwise.nil, priorsLoad_nil⟩, fun _ => ⟨_, _, Synced.nil⟩⟩
  | append_singleton calls call ih =>
    have hbefore : NewIds hash (plan hash timestamp parsers calls) := by
      rw [plan_concat, newIds_concat] at hnew
      exact hnew.1
    rw [synced_concat, plan_concat, priorsLoad_concat, List.pairwise_append]
    have ih := ih hbefore
    constructor
    · rintro ⟨publications, db, hrun, -, hcall⟩
      obtain ⟨hpairwise, hpriors⟩ := ih.mp ⟨publications, db, hrun⟩
      obtain ⟨hload, hagree⟩ := (hrun.exists_run_iff hnew).mp hcall
      refine ⟨⟨hpairwise, List.pairwise_singleton _ _, fun q hq p hp => ?_⟩, hpriors, hload⟩
      rw [List.mem_singleton.mp hp]
      exact hagree q hq
    · rintro ⟨⟨hpairwise, -, hagree⟩, hpriors, hload⟩
      obtain ⟨publications, db, hrun⟩ := ih.mpr ⟨hpairwise, hpriors⟩
      refine ⟨publications, db, hrun, trivial, (hrun.exists_run_iff hnew).mpr ⟨hload, ?_⟩⟩
      exact fun q hq => hagree q hq _ (List.mem_singleton_self _)

end Runs

/-! ### Repositories without documents -/

/-- Parsers that find no metadata. -/
def noParsers : Parsers := ⟨fun _ _ => .absent, fun _ _ => none, fun _ => []⟩

/-- What a repository with these commits holds. -/
def historyInputs (commits : List CommitEvidence) : LocalInputs := ⟨⟨commits, true⟩, [], [], "now"⟩

def firstCommit : CommitEvidence := ⟨"a", "First", 0, []⟩

def secondCommit : CommitEvidence := ⟨"b", "Second", 1, []⟩

def widget : GitHubRepository := ⟨"acme", "widget"⟩

def budget : GitHubRateLimitView := ⟨none, none, none⟩

/-- Pull request 7, which has the first commit. -/
def pullItem : ApiItem := ⟨7, none, "pull/7", true⟩

def pullCommits (_ : Nat) : List ApiCommit := [⟨"a", "commit/a"⟩]

/-- What calls publish, with texts for their own hashes. -/
def samplePlan (calls : List SyncCall) : List Publication := plan id (fun _ => none) noParsers calls

/-! ### Repositories with decisions -/

/-- A document with a decision record. -/
def decisionDocument (path metadata : String) : DocumentInput :=
  ⟨path, "---\n" ++ metadata ++ "---\n"⟩

def acceptedText : String := "rationale:\n  id: ADR-1\n  status: accepted\n"

def historicalText : String := "rationale:\n  id: ADR-1\n  status: historical\n"

def successorText : String :=
  "rationale:\n  id: ADR-2\n  status: accepted\n  supersedes: [ADR-1]\n"

/-- The metadata in these texts. -/
def decisionParsers : Parsers where
  rationale _ text :=
    if text = acceptedText then
      .metadata ⟨"ADR-1", none, none, none, "accepted", [], [], [], []⟩
    else if text = historicalText then
      .metadata ⟨"ADR-1", none, none, none, "historical", [], [], [], []⟩
    else if text = successorText then
      .metadata ⟨"ADR-2", none, none, none, "accepted", [], ["ADR-1"], [], []⟩
    else .absent
  verification _ _ := none
  markdown _ := []

end Rationale.Engine
