import Rationale.Engine.Why
import Rationale.Kernel.Content
import Rationale.Store.Invariant

namespace Rationale.Engine

open Std Relation Rationale.Library Rationale.Git Rationale.Store Rationale.Kernel

/-!
# The candidate stage and the proof

Candidates are ranked after the proof is known, from the records of the whole snapshot.

* `ProofAvailable` — the proof slice loads, the supervisor answers, and Git resolves the target;
* `why_of_proofAvailable` — what is left of the query is its candidate stage;
* `CandidatesLoad` — the condition under which that stage keeps the answer;
* `why_answers_iff` — `why` returns the proof exactly then, and two snapshots with the same proof
  slice give the same proof.
-/

section Stage

variable (hash : String → String) (timestamp : Int → Option String)
  (observedSecond : String → Option Int) (resolver : Resolver)
  (supervisor : KernelRequest → Except EngineError KernelResponse)

/-- The query has a proof: the target resolves, its slice loads, and the supervisor answers. -/
structure ProofAvailable (db : Database) (target : String) (slice : GraphSlice)
    (response : KernelResponse) : Prop where
  input : validateInput target "target" maxTargetBytes = .ok ()
  resolved : ∃ parsed evidence candidateEvidence, TargetSpec.fromStr target = .ok parsed ∧
    resolver.resolveForProof parsed = .ok evidence ∧
    resolver.resolve parsed = .ok candidateEvidence ∧
    loadCurrentProofSlice db (proofSeedIds evidence) proofSliceLimits = .ok (some slice) ∧
    supervisor (proofRequest hash timestamp target evidence slice) = .ok response

/-- The query returns the response as its proof. -/
def Answers (db : Database) (target : String) (response : KernelResponse) : Prop :=
  ∃ result, why hash timestamp observedSecond resolver supervisor db target = .ok result ∧
    result.response = response

/-- The response needs no candidates, or the snapshot has few enough records to rank them. -/
def CandidatesLoad (db : Database) (slice : GraphSlice) (response : KernelResponse) : Prop :=
  proofNeedsCandidates response = true →
    (db.snapshot slice.snapshotId).recordIds.size ≤ candidateRecordLimit

end Stage

section Proof

variable {hash : String → String} {timestamp : Int → Option String}
  (observedSecond : String → Option Int) {resolver : Resolver}
  {supervisor : KernelRequest → Except EngineError KernelResponse}
  {db : Database} {target : String} {slice : GraphSlice} {response : KernelResponse}

/-- With a proof available, only the candidate stage is left of the query. -/
theorem why_of_proofAvailable
    (h : ProofAvailable hash timestamp resolver supervisor db target slice response) :
    ∃ parsed evidence candidateEvidence, resolver.resolve parsed = .ok candidateEvidence ∧
      why hash timestamp observedSecond resolver supervisor db target =
        (candidateStage observedSecond resolver db slice.snapshotId target parsed evidence
          response).map fun candidates =>
            ⟨target, response, candidates, freshnessViews slice.sources⟩ := by
  obtain ⟨parsed, evidence, candidateEvidence, hparsed, hproof, hfull, hslice, hresponse⟩ :=
    h.resolved
  refine ⟨parsed, evidence, candidateEvidence, hfull, ?_⟩
  unfold why
  rw [h.input, hparsed]
  show (resolver.resolveForProof parsed).mapError EngineError.git >>= _ = _
  rw [hproof]
  show (loadCurrentProofSlice db (proofSeedIds evidence) proofSliceLimits).mapError
    EngineError.store >>= _ = _
  rw [hslice]
  show supervisor (proofRequest hash timestamp target evidence slice) >>= _ = _
  rw [hresponse]
  show candidateStage observedSecond resolver db slice.snapshotId target parsed evidence response
    >>= _ = _
  cases candidateStage observedSecond resolver db slice.snapshotId target parsed evidence response
    <;> rfl

/-- The stage succeeds exactly when the candidate records load. -/
theorem candidateStage_isOk_iff {parsed : TargetSpec} (evidence : ResolvedTarget)
    {candidateEvidence : ResolvedTarget}
    (hresolve : resolver.resolve parsed = .ok candidateEvidence) :
    (∃ candidates, candidateStage observedSecond resolver db slice.snapshotId target parsed
      evidence response = .ok candidates) ↔ CandidatesLoad db slice response := by
  unfold candidateStage CandidatesLoad
  by_cases hneeds : proofNeedsCandidates response = true
  · rw [if_pos hneeds, hresolve]
    show (∃ candidates, ((loadSnapshotRecords db slice.snapshotId candidateRecordLimit).mapError
      EngineError.store >>= _) = _) ↔ _
    cases hload : loadSnapshotRecords db slice.snapshotId candidateRecordLimit with
    | ok records =>
      have hsize := (loadSnapshotRecords_eq_ok.mp hload).1
      exact ⟨fun _ _ => hsize, fun _ => ⟨_, rfl⟩⟩
    | error error =>
      refine ⟨fun ⟨_, h⟩ => (nomatch h), fun hsize => ?_⟩
      have hok := loadSnapshotRecords_eq_ok.mpr ⟨hsize hneeds, rfl⟩
      rw [hload] at hok
      exact nomatch hok
  · rw [if_neg hneeds]
    exact ⟨fun _ h => absurd h hneeds, fun _ => ⟨_, rfl⟩⟩

/-- One query: the proof is returned exactly when the candidate records load. -/
theorem answers_iff
    (h : ProofAvailable hash timestamp resolver supervisor db target slice response) :
    Answers hash timestamp observedSecond resolver supervisor db target response ↔
      CandidatesLoad db slice response := by
  obtain ⟨parsed, evidence, candidateEvidence, hresolve, hwhy⟩ :=
    why_of_proofAvailable observedSecond h
  rw [← candidateStage_isOk_iff observedSecond evidence hresolve, Answers, hwhy]
  constructor
  · rintro ⟨result, hresult, -⟩
    obtain ⟨candidates, hcandidates, -⟩ := map_eq_ok.mp hresult
    exact ⟨candidates, hcandidates⟩
  · rintro ⟨candidates, hcandidates⟩
    exact ⟨_, map_eq_ok.mpr ⟨candidates, hcandidates, rfl⟩, rfl⟩

/-- Slices with the same evidence. -/
structure SameEvidence (left right : GraphSlice) : Prop where
  nodes : left.nodes = right.nodes
  edges : left.edges = right.edges
  conflicts : left.conflicts = right.conflicts

/-- For one target, slices with the same evidence ask the kernel the same question. -/
theorem sameQuestion_proofRequest {evidence : ResolvedTarget} {left right : GraphSlice}
    (h : SameEvidence left right) :
    SameQuestion (proofRequest hash timestamp target evidence left)
      (proofRequest hash timestamp target evidence right) := by
  have hgraph : Graph.ofSlice left = Graph.ofSlice right := by
    rw [Graph.ofSlice, Graph.ofSlice, h.nodes, h.edges]
  unfold proofRequest
  rw [hgraph]
  exact ⟨rfl, rfl, rfl, rfl, h.conflicts⟩

/-- **Candidates and the proof.** Whenever a proof is available, `why` returns it exactly when it
    needs no candidates or the snapshot has no more records than are ranked.  Two snapshots with the
    same proof slice have the same proof, and both queries return it exactly under that condition
    on both. -/
theorem why_answers_iff
    (hkernel : ∀ request response, supervisor request = .ok response →
      evaluate request = some response)
    {left right : Database} {leftSlice rightSlice : GraphSlice}
    {leftResponse rightResponse : KernelResponse}
    (hleft : ProofAvailable hash timestamp resolver supervisor left target leftSlice leftResponse)
    (hright : ProofAvailable hash timestamp resolver supervisor right target rightSlice
      rightResponse)
    (hsame : SameEvidence leftSlice rightSlice) :
    (Answers hash timestamp observedSecond resolver supervisor left target leftResponse ↔
      CandidatesLoad left leftSlice leftResponse) ∧
    ((Answers hash timestamp observedSecond resolver supervisor left target leftResponse ∧
      Answers hash timestamp observedSecond resolver supervisor right target rightResponse ∧
      content leftResponse = content rightResponse) ↔
      CandidatesLoad left leftSlice leftResponse ∧
        CandidatesLoad right rightSlice rightResponse) := by
  refine ⟨answers_iff observedSecond hleft, ?_⟩
  -- the two requests differ in their identifiers only
  have hcontent : content leftResponse = content rightResponse := by
    obtain ⟨parsed, evidence, _, hparsed, hproof, -, -, hanswer⟩ := hleft.resolved
    obtain ⟨parsed', evidence', _, hparsed', hproof', -, -, hanswer'⟩ := hright.resolved
    obtain rfl := Except.ok.inj (hparsed.symm.trans hparsed')
    obtain rfl := Except.ok.inj (hproof.symm.trans hproof')
    have hcongr : answer (proofRequest hash timestamp target evidence leftSlice) =
        answer (proofRequest hash timestamp target evidence rightSlice) :=
      answer_congr (sameQuestion_proofRequest hsame)
    rw [answer, answer, hkernel _ _ hanswer, hkernel _ _ hanswer'] at hcongr
    exact Option.some.inj hcongr
  rw [answers_iff observedSecond hleft, answers_iff observedSecond hright, and_iff_left hcontent]

end Proof

/-! ### Snapshots of records only -/

section Records

/-- The transaction that fills a snapshot with records. -/
def recordsCandidate (nodes : List EvidenceNode) : CandidateSnapshot :=
  nodes.foldl CandidateSnapshot.withRecord ⟨Database.empty, "snapshot:1", Snapshot.candidate⟩

/-- A database whose current snapshot holds the given records and nothing else. -/
def recordsDatabase (nodes : List EvidenceNode) : Database := (recordsCandidate nodes).published

variable {nodes : List EvidenceNode}

theorem rows_recordsCandidate : (recordsCandidate nodes).rows = { Snapshot.candidate with
    recordIds := nodes.foldl (fun ids node => ids.insert node.id) ∅ } := by
  unfold recordsCandidate
  rw [foldl_withRecord]
  rfl

theorem snapshot_recordsDatabase : (recordsDatabase nodes).snapshot "snapshot:1" =
    { (recordsCandidate nodes).rows with state := .published } := by
  have hid : (recordsCandidate nodes).snapshotId = "snapshot:1" := by
    unfold recordsCandidate
    rw [foldl_withRecord]
  rw [← hid]
  exact Database.snapshot_setSnapshot _ _ _

theorem current_recordsDatabase : (recordsDatabase nodes).current = some "snapshot:1" := by
  unfold recordsDatabase recordsCandidate
  rw [foldl_withRecord]
  rfl

theorem reachable_recordsDatabase (hnodup : nodes.Pairwise (fun a b => a.id ≠ b.id)) :
    Reachable (recordsDatabase nodes) := by
  have hbegin : beginCandidate Database.empty "snapshot:1" =
      .ok ⟨Database.empty, "snapshot:1", Snapshot.candidate⟩ := rfl
  have hinsert : nodes.foldlM CandidateSnapshot.insertRecord
      ⟨Database.empty, "snapshot:1", Snapshot.candidate⟩ = .ok (recordsCandidate nodes) :=
    (insertRecords_eq_ok hnodup).mpr
      ⟨fun node _ other h => (by simp [Database.empty] at h), rfl⟩
  have hstep : ∀ (candidate : CandidateSnapshot) node candidate',
      candidate.insertRecord node = .ok candidate' → CandidateStep candidate candidate' :=
    fun _ _ _ h => CandidateStep.record h
  have hfill := reflTransGen_of_foldlM hstep hinsert
  have hclosed : Closed (recordsCandidate nodes).transaction (recordsCandidate nodes).rows := by
    rw [rows_recordsCandidate]
    constructor
    · intro edge hedge
      exact absurd hedge (by simp [memberEdges, Snapshot.candidate])
    · intro conflict hconflict
      exact absurd hconflict (by simp [Snapshot.candidate])
  exact Reachable.publish Reachable.empty hbegin hfill (publish_eq_ok.mpr ⟨hclosed, rfl⟩)

theorem size_recordsDatabase (hnodup : nodes.Pairwise (fun a b => a.id ≠ b.id)) :
    ((recordsDatabase nodes).snapshot "snapshot:1").recordIds.size = nodes.length := by
  rw [snapshot_recordsDatabase, rows_recordsCandidate]
  show (nodes.foldl (fun ids node => ids.insert node.id) (∅ : StringSet)).size = _
  rw [size_foldl_insert hnodup (fun _ _ => by simp)]
  simp

/-- The published rows are the identifiers of the records, and nothing else. -/
theorem rows_recordsDatabase : (recordsDatabase nodes).snapshot "snapshot:1" =
    { Snapshot.candidate with
      state := .published
      recordIds := nodes.foldl (fun ids node => ids.insert node.id) ∅ } := by
  rw [snapshot_recordsDatabase, rows_recordsCandidate]

theorem mem_recordIds_recordsDatabase {id : String} :
    id ∈ ((recordsDatabase nodes).snapshot "snapshot:1").recordIds ↔
      ∃ node ∈ nodes, node.id = id := by
  rw [rows_recordsDatabase]
  exact mem_foldl_insert.trans (or_iff_right (by simp))

theorem snapshotSlice_recordsDatabase : snapshotSlice (recordsDatabase nodes) "snapshot:1" =
    ⟨"snapshot:1", memberRecords (recordsDatabase nodes)
      ((recordsDatabase nodes).snapshot "snapshot:1"), [], [], []⟩ := by
  have hedges : memberEdges (recordsDatabase nodes)
      ((recordsDatabase nodes).snapshot "snapshot:1") = [] := by
    rw [rows_recordsDatabase]
    simp [memberEdges, Snapshot.candidate]
  have hconflicts : ((recordsDatabase nodes).snapshot "snapshot:1").conflicts = ∅ := by
    rw [rows_recordsDatabase]
    rfl
  have hsources : loadSources (recordsDatabase nodes) "snapshot:1" = [] := by
    rw [loadSources, rows_recordsDatabase]
    rfl
  dsimp only [snapshotSlice]
  rw [hedges, hconflicts, hsources]
  rfl

/-- From a seed that is not a record, nothing of such a snapshot is reached. -/
theorem loadCurrentProofSlice_recordsDatabase {seed : String}
    (hnodup : nodes.Pairwise (fun a b => a.id ≠ b.id)) (hseed : ∀ node ∈ nodes, node.id ≠ seed) :
    loadCurrentProofSlice (recordsDatabase nodes) [seed] proofSliceLimits =
      .ok (some ⟨"snapshot:1", [], [], [], []⟩) := by
  have hvalid := (reachable_recordsDatabase hnodup).valid
  -- no edge and no conflict leads on, so only the seed is reached
  have hreach : reachable (snapshotSlice (recordsDatabase nodes) "snapshot:1") [seed] = [seed] := by
    rw [snapshotSlice_recordsDatabase]
    rfl
  have hslice : reachableSlice (snapshotSlice (recordsDatabase nodes) "snapshot:1") [seed] =
      ⟨"snapshot:1", [], [], [], []⟩ := by
    dsimp only [reachableSlice]
    rw [hreach, snapshotSlice_recordsDatabase, List.filter_eq_nil_iff.mpr]
    · rfl
    · intro node hnode hmem
      have hid := ((mem_memberRecords hvalid.records_keyed).mp hnode).1
      obtain ⟨node', hnode', heq⟩ := mem_recordIds_recordsDatabase.mp hid
      exact hseed node' hnode' (heq.trans (List.mem_singleton.mp (of_decide_eq_true hmem)))
  rw [loadCurrentProofSlice_eq_ok]
  have hone : [seed].length ≤ proofSliceLimits.maxNodes := by
    show 1 ≤ 4000
    omega
  refine ⟨"snapshot:1", current_recordsDatabase, hone, ?_, ?_, ?_, hslice.symm⟩
  · rw [reachableCount, hreach]
    exact (List.length_filter_le _ _).trans hone
  · exact Nat.zero_le _
  · exact Nat.zero_le _

/-! ### A query over such a snapshot -/

def sampleCommit : CommitEvidence := ⟨"c0ffee", "Retry the checkout", 0, []⟩

/-- Git resolves every target to the sample commit. -/
def sampleResolver : Resolver :=
  ⟨fun _ => .ok (.commit sampleCommit), fun _ => .ok (.commit sampleCommit)⟩

/-- A supervisor whose worker answers every request. -/
def kernelSupervisor (request : KernelRequest) : Except EngineError KernelResponse :=
  match evaluate request with
  | some response => .ok response
  | none => .error (.proofUnavailable "worker exited")

/-- Nothing leads on from the sample commit. -/
def sampleResponse : KernelResponse :=
  .proof 1 (queryId id "snapshot:1" "commit:c0ffee") "snapshot:1"
    ⟨.notEstablished, [], [⟨.changeToReview, some "c0ffee", some .review⟩], []⟩

theorem proofAvailable_recordsDatabase (nodes : List EvidenceNode)
    (hnodup : nodes.Pairwise (fun a b => a.id ≠ b.id))
    (hseed : ∀ node ∈ nodes, node.id ≠ "c0ffee") :
    ProofAvailable id (fun _ => none) sampleResolver kernelSupervisor (recordsDatabase nodes)
      "commit:c0ffee" ⟨"snapshot:1", [], [], [], []⟩ sampleResponse where
  input := by decide
  resolved := ⟨.commit "c0ffee", .commit sampleCommit, .commit sampleCommit, by decide, rfl,
    rfl, loadCurrentProofSlice_recordsDatabase hnodup hseed, by decide⟩

end Records

/-- An unrelated work item. -/
def unrelatedItem (id : String) : EvidenceNode :=
  ⟨id, .workItem, .current, none, none, ⟨.document, id ++ ".md#rationale", none, none⟩⟩

/-- Over an empty snapshot and over one with an unrelated record the query returns one proof. -/
theorem why_answers_sample :
    Answers id (fun _ => none) (fun _ => none) sampleResolver kernelSupervisor (recordsDatabase [])
        "commit:c0ffee" sampleResponse ∧
      Answers id (fun _ => none) (fun _ => none) sampleResolver kernelSupervisor
        (recordsDatabase [unrelatedItem "ISSUE-1"]) "commit:c0ffee" sampleResponse := by
  have hkernel : ∀ request response, kernelSupervisor request = .ok response →
      evaluate request = some response := by
    intro request response h
    unfold kernelSupervisor at h
    split at h
    · next response' heval => rw [heval, Except.ok.inj h]
    · exact nomatch h
  have hleft := proofAvailable_recordsDatabase [] List.Pairwise.nil
    (fun _ h => absurd h List.not_mem_nil)
  have hright := proofAvailable_recordsDatabase [unrelatedItem "ISSUE-1"]
    (List.pairwise_singleton _ _) (by decide)
  have hiff := why_answers_iff (fun _ => none) hkernel hleft hright
    ⟨rfl, rfl, rfl⟩
  have hfew : ∀ nodes : List EvidenceNode, nodes.Pairwise (fun a b => a.id ≠ b.id) →
      nodes.length ≤ 1 →
      CandidatesLoad (recordsDatabase nodes) ⟨"snapshot:1", [], [], [], []⟩ sampleResponse := by
    intro nodes hnodup hlength _
    rw [size_recordsDatabase hnodup]
    exact hlength.trans (by decide)
  have hanswers := hiff.2.mpr ⟨hfew [] List.Pairwise.nil (by decide),
    hfew [unrelatedItem "ISSUE-1"] (List.pairwise_singleton _ _) (by decide)⟩
  exact ⟨hanswers.1, hanswers.2.1⟩

/-! ### A snapshot with too many records to rank -/

/-- All words of a length over two letters. -/
def words : Nat → List (List Char)
  | 0 => [[]]
  | n + 1 => (words n).map ('a' :: ·) ++ (words n).map ('b' :: ·)

theorem length_words (n : Nat) : (words n).length = 2 ^ n := by
  induction n with
  | zero => rfl
  | succ n ih =>
    rw [words, List.length_append, List.length_map, List.length_map, ih]
    omega

theorem nodup_words (n : Nat) : (words n).Nodup := by
  induction n with
  | zero => exact List.nodup_singleton _
  | succ n ih =>
    rw [words, List.nodup_append]
    refine ⟨ih.map List.cons_injective, ih.map List.cons_injective, ?_⟩
    -- the two halves start with different letters
    intro x hx y hy heq
    obtain ⟨u, -, rfl⟩ := List.mem_map.mp hx
    obtain ⟨v, -, rfl⟩ := List.mem_map.mp hy
    exact absurd (List.cons.inj heq).1 (by decide)

/-- The work items `ISSUE-w` for every word `w` of twelve letters. -/
def crowd : List EvidenceNode :=
  (words 12).map fun word => unrelatedItem ("ISSUE-" ++ String.ofList word)

theorem crowd_pairwise : crowd.Pairwise (fun a b => a.id ≠ b.id) := by
  rw [crowd, List.pairwise_map]
  refine (nodup_words 12).imp (fun {u v} hne heq => hne ?_)
  have hlists := congrArg String.toList heq
  simpa [unrelatedItem] using hlists

theorem crowd_ne (node : EvidenceNode) (hnode : node ∈ crowd) : node.id ≠ "c0ffee" := by
  obtain ⟨word, -, rfl⟩ := List.mem_map.mp hnode
  intro heq
  have hhead := congrArg (fun id : String => id.toList.head?) heq
  simp [unrelatedItem] at hhead

/-- **4096 unrelated records hide a proof.**  The slice loads and the kernel answers, yet the query
    fails. -/
theorem why_fails_crowd :
    Reachable (recordsDatabase crowd) ∧
    ProofAvailable id (fun _ => none) sampleResolver kernelSupervisor (recordsDatabase crowd)
      "commit:c0ffee" ⟨"snapshot:1", [], [], [], []⟩ sampleResponse ∧
    ¬ Answers id (fun _ => none) (fun _ => none) sampleResolver kernelSupervisor
      (recordsDatabase crowd) "commit:c0ffee" sampleResponse := by
  have hproof := proofAvailable_recordsDatabase crowd crowd_pairwise crowd_ne
  refine ⟨reachable_recordsDatabase crowd_pairwise, hproof, ?_⟩
  rw [answers_iff _ hproof]
  intro hload
  have hsize := hload rfl
  rw [size_recordsDatabase crowd_pairwise, crowd, List.length_map, length_words] at hsize
  exact absurd hsize (by decide)

end Rationale.Engine
