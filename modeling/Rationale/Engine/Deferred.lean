import Rationale.Engine.Why
import Rationale.Git.Resolve

namespace Rationale.Engine

open Std Rationale.Library Rationale.Git Rationale.Store

/-!
# Deferred history

`why` resolves its target without the history of its path, and reads the history only when the proof
leaves candidates to rank.

* `deferred`, `eager` — the resolver of a working tree as `why` uses it, and one that always reads the
  history;
* `why_eq_ok` — inversion of `why`;
* `why_eager_iff` — the two give the same answers, as far as the history can be read.
-/

/-- What Git answers for a working tree. -/
def answerOf (resolved : Except GitEvidenceError Resolved) : Except String ResolvedTarget :=
  (resolved.map Resolved.target).mapError GitEvidenceError.message

/-- The resolver of a working tree. -/
def deferred (worktree : Worktree) : Resolver where
  resolveForProof target := answerOf (worktree.resolveForProof target)
  resolve target := answerOf (worktree.resolve target)

/-- A resolver that always reads the history. -/
def eager (worktree : Worktree) : Resolver where
  resolveForProof target := answerOf (worktree.resolve target)
  resolve target := answerOf (worktree.resolve target)

/-! ### What reads the history -/

section Target

variable {hash : String → String} {timestamp : Int → Option String}
  {observedSecond : String → Option Int}

theorem answerOf_eq_ok {resolved : Except GitEvidenceError Resolved} {evidence : ResolvedTarget} :
    answerOf resolved = .ok evidence ↔ ∃ full, resolved = .ok full ∧ full.target = evidence := by
  unfold answerOf
  rw [mapError_eq_ok, map_eq_ok]

/-- The seeds of a proof are the attributed commits. -/
theorem proofSeedIds_withoutHistory (full : Resolved) :
    proofSeedIds full.withoutHistory.target = proofSeedIds full.target := by
  cases full <;> rfl

theorem proofRequest_withoutHistory (target : String) (full : Resolved) (slice : GraphSlice) :
    proofRequest hash timestamp target full.withoutHistory.target slice =
      proofRequest hash timestamp target full.target slice := by
  cases full <;> rfl

/-- Without records there is nothing to rank, whatever the evidence. -/
theorem candidatesForResponse_nil (response : KernelResponse) (target : String)
    (evidence : ResolvedTarget) :
    candidatesForResponse observedSecond response target evidence [] = [] := by
  unfold candidatesForResponse
  cases response with
  | error version requestId error => rfl
  | proof version requestId snapshotId proof =>
    dsimp only
    split
    · rfl
    · rfl

end Target

/-! ### The query -/

section Query

variable {hash : String → String} {timestamp : Int → Option String}
  {observedSecond : String → Option Int} {resolver : Resolver}
  {supervisor : KernelRequest → Except EngineError KernelResponse} {db : Database} {target : String}
  {result : WhyResult}

/-- What a successful query went through. -/
structure Answered (hash : String → String) (timestamp : Int → Option String)
    (observedSecond : String → Option Int) (resolver : Resolver)
    (supervisor : KernelRequest → Except EngineError KernelResponse) (db : Database)
    (target : String) (result : WhyResult) (parsed : TargetSpec) (evidence : ResolvedTarget)
    (slice : GraphSlice) : Prop where
  input : validateInput target "target" maxTargetBytes = .ok ()
  accepted : TargetSpec.fromStr target = .ok parsed
  resolved : resolver.resolveForProof parsed = .ok evidence
  loaded : loadCurrentProofSlice db (proofSeedIds evidence) proofSliceLimits = .ok (some slice)
  evaluated : supervisor (proofRequest hash timestamp target evidence slice) = .ok result.response
  ranked : candidateStage observedSecond resolver db slice.snapshotId target parsed evidence
    result.response = .ok result.candidates
  named : result.target = target
  sources : result.freshness = freshnessViews slice.sources

/-- **Inversion of `why`.** -/
theorem why_eq_ok : why hash timestamp observedSecond resolver supervisor db target = .ok result ↔
    ∃ parsed evidence slice, Answered hash timestamp observedSecond resolver supervisor db target
      result parsed evidence slice := by
  unfold why
  rw [bind_eq_ok]
  constructor
  · rintro ⟨_, hinput, h⟩
    obtain ⟨parsed, hparsed, h⟩ := bind_eq_ok.mp h
    obtain ⟨evidence, hresolved, h⟩ := bind_eq_ok.mp h
    obtain ⟨slice?, hslice, h⟩ := bind_eq_ok.mp h
    cases slice? with
    | none => exact nomatch h
    | some slice =>
      obtain ⟨response, hresponse, h⟩ := bind_eq_ok.mp h
      obtain ⟨candidates, hcandidates, h⟩ := bind_eq_ok.mp h
      obtain rfl := Except.ok.inj h
      exact ⟨parsed, evidence, slice, hinput, mapError_eq_ok.mp hparsed,
        mapError_eq_ok.mp hresolved, mapError_eq_ok.mp hslice, hresponse, hcandidates, rfl, rfl⟩
  · rintro ⟨parsed, evidence, slice, h⟩
    obtain ⟨target', response, candidates, freshness⟩ := result
    obtain rfl : target' = target := h.named
    obtain rfl : freshness = freshnessViews slice.sources := h.sources
    refine ⟨(), h.input, bind_eq_ok.mpr ⟨parsed, mapError_eq_ok.mpr h.accepted, ?_⟩⟩
    refine bind_eq_ok.mpr ⟨evidence, mapError_eq_ok.mpr h.resolved, ?_⟩
    refine bind_eq_ok.mpr ⟨some slice, mapError_eq_ok.mpr h.loaded, ?_⟩
    exact bind_eq_ok.mpr ⟨response, h.evaluated, bind_eq_ok.mpr ⟨candidates, h.ranked, rfl⟩⟩

/-- The candidate stage reads the target again, or ranks nothing. -/
theorem candidateStage_congr {resolver' : Resolver} {snapshotId : String} {parsed : TargetSpec}
    {evidence evidence' : ResolvedTarget} {response : KernelResponse}
    (h : resolver.resolve parsed = resolver'.resolve parsed) :
    candidateStage observedSecond resolver db snapshotId target parsed evidence response =
      candidateStage observedSecond resolver' db snapshotId target parsed evidence' response := by
  unfold candidateStage
  rw [h, candidatesForResponse_nil, candidatesForResponse_nil]

/-- **Deferred history changes no answer.** A query that always reads the history of its target has
    exactly the answers of one that defers it, for the targets whose history can be read. -/
theorem why_eager_iff (worktree : Worktree) :
    why hash timestamp observedSecond (eager worktree) supervisor db target = .ok result ↔
      why hash timestamp observedSecond (deferred worktree) supervisor db target = .ok result ∧
        ∀ parsed, TargetSpec.fromStr target = .ok parsed →
          ∃ full, worktree.resolve parsed = .ok full := by
  rw [why_eq_ok, why_eq_ok]
  constructor
  · rintro ⟨parsed, evidence, slice, h⟩
    obtain ⟨full, hfull, rfl⟩ := answerOf_eq_ok.mp h.resolved
    refine ⟨⟨parsed, full.withoutHistory.target, slice, h.input, h.accepted, ?_, ?_, ?_, ?_, h.named,
      h.sources⟩, fun other hother => ?_⟩
    · exact answerOf_eq_ok.mpr ⟨_, resolveForProof_eq_ok_of_resolve hfull, rfl⟩
    · rw [proofSeedIds_withoutHistory]
      exact h.loaded
    · rw [proofRequest_withoutHistory]
      exact h.evaluated
    · rw [← h.ranked]
      exact candidateStage_congr rfl
    · obtain rfl := Except.ok.inj (h.accepted.symm.trans hother)
      exact ⟨full, hfull⟩
  · rintro ⟨⟨parsed, evidence, slice, h⟩, hreadable⟩
    obtain ⟨full, hfull⟩ := hreadable parsed h.accepted
    obtain ⟨brief, hbrief, rfl⟩ := answerOf_eq_ok.mp h.resolved
    -- what was resolved without history is what the history is read for
    have hsame := resolveForProof_eq_ok_of_resolve hfull
    rw [hbrief] at hsame
    obtain rfl := Except.ok.inj hsame
    refine ⟨parsed, full.target, slice, h.input, h.accepted, answerOf_eq_ok.mpr ⟨full, hfull, rfl⟩, ?_,
      ?_, ?_, h.named, h.sources⟩
    · rw [← proofSeedIds_withoutHistory]
      exact h.loaded
    · rw [← proofRequest_withoutHistory]
      exact h.evaluated
    · rw [← h.ranked]
      exact candidateStage_congr rfl

end Query

end Rationale.Engine
