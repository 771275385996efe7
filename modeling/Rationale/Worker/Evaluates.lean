import Rationale.Worker.Accounting
import Rationale.Worker.Exchange
import Rationale.Worker.Pipes

namespace Rationale.Worker

open Rationale.Library Rationale.Kernel Rationale.Wire

/-!
# The supervisor computes `evaluate`

With the kernel worker behind it, whatever the clients, the clock and the crashes of the worker do.

* `InStep` — between exchanges the pipes are quiet, during one they carry its bytes;
* `OwnResponses` — every response that a client gets is that of its own request;
* `supervisor_evaluates` — both in every run, with the books of the supervisor.
-/

variable {codec : Codec} {config : Config} {s s' : State Loop}

/-- During an exchange the pipes carry its bytes. -/
def Underway (codec : Codec) (config : Config) (stage : Stage) (ex : Exchange) (link : Link Loop) :
    Prop :=
  (codec.hostWrite stage.message).length ≤ config.maxPayload ∧
    Talking codec (codec.hostWrite stage.message) link ex

def InStep (codec : Codec) (config : Config) (s : State Loop) : Prop :=
  Pipes Link.Quiet (Underway codec config) s

/-- The responses among the answers are those of the answered requests. -/
def OwnResponses (s : State Loop) : Prop :=
  Answered (fun response request => evaluate request = some response) s

/-! ### Moves of the kernel worker -/

theorem Link.Quiet.send_eq_none {link : Link Loop} (hquiet : link.Quiet) (byte : UInt8) :
    Loop.send link.proc byte = none := by
  obtain hproc | hproc := hquiet.boundary <;> rw [hproc] <;> rfl

/-- Between exchanges the kernel worker has nothing to read and nothing to write. -/
theorem moves_kernelWorker :
    Moves (kernelWorker codec) codec config Link.Quiet Link.Quiet (Underway codec config) where
  fresh := ⟨rfl, rfl, .inl rfl⟩
  ask hquiet := ⟨hquiet.stdin_eq, hquiet.stdout_eq, hquiet.boundary⟩
  start stage hquiet hlength := ⟨hlength, talking_begin hquiet⟩
  hostSends h := ⟨h.1, talking_hostSends h.2⟩
  hostReceives h hstdout _ := ⟨h.1, talking_hostReceives h.2 hstdout⟩
  complete h hstdout hcomplete :=
    (talking_complete (talking_hostReceives h.2 hstdout) hcomplete).2
  workerReceives := by
    intro link byte stdin proc hstdin hrecv
    constructor
    · -- with empty pipes there is nothing to read
      intro hquiet
      rw [hquiet.stdin_eq] at hstdin
      exact nomatch hstdin
    · intro stage ex h
      -- the length fits the four bytes of the header
      have hlength : (codec.hostWrite stage.message).length < 2 ^ 32 :=
        h.1.trans_lt config.maxPayload_lt
      exact ⟨h.1, talking_workerReceives hlength h.2 hstdin hrecv⟩
  workerSends := by
    intro link byte proc hsend
    constructor
    · intro hquiet
      exact nomatch (hquiet.send_eq_none byte).symm.trans hsend
    · intro stage ex h
      exact ⟨h.1, talking_workerSends h.2 hsend⟩
  workerCrashes := by
    intro link
    constructor
    · intro hquiet
      exact ⟨hquiet.stdin_eq, hquiet.stdout_eq, .inr rfl⟩
    · intro stage ex h
      exact ⟨h.1, talking_workerCrashes h.2⟩

theorem inStep_run (hrun : Run (kernelWorker codec) codec config s) : InStep codec config s :=
  pipes_run moves_kernelWorker hrun

/-! ### Responses -/

/-- The reply to the text of a request is read as its response. -/
theorem hostRead_replies {request : KernelRequest} {text : List UInt8} {response : KernelResponse}
    (hfaithful : codec.Faithful request)
    (htext : Replies codec (codec.hostWrite (.evaluate request)) text)
    (hread : codec.hostRead text = .ok (.result response)) : evaluate request = some response := by
  obtain ⟨tree, htree, rfl, -⟩ := htext
  rw [processPayload, hfaithful.read_request] at htree
  dsimp only at htree
  rw [handle_evaluate, Option.map_eq_some_iff] at htree
  obtain ⟨response', hresponse', rfl⟩ := htree
  rw [hfaithful.read_response response' hresponse'] at hread
  cases hread
  exact hresponse'

theorem ownResponses_transition (h : Transition (kernelWorker codec) codec config s s')
    (haccounted : Accounted config s) (hin : InStep codec config s)
    (hfaithful : ∀ request ∈ s.submitted, codec.Faithful request) (hown : OwnResponses s) :
    OwnResponses s' := by
  apply answered_transition h haccounted ?_ hown
  intro handling got link byte stdout payload response hphase hlink hstdout hcomplete hread
  have hmine : s.submitted[handling.ticket]? = some handling.request := haccounted.evaluated hphase
  have htalking := (hin.talking hphase hlink).2
  have htext := (talking_complete (talking_hostReceives htalking hstdout) hcomplete).1
  exact hostRead_replies (hfaithful _ (List.mem_of_getElem? hmine)) htext hread

theorem ownResponses_run (hrun : Run (kernelWorker codec) codec config s)
    (hfaithful : ∀ request ∈ s.submitted, codec.Faithful request) : OwnResponses s := by
  induction hrun with
  | refl => exact answered_launch
  | tail hbefore hlast ih =>
    obtain ⟨action, haction⟩ := hlast
    have h := transition_step haction
    -- nothing that was submitted is forgotten
    have hfaithful_before : ∀ request ∈ _, codec.Faithful request :=
      fun request hmem => hfaithful request (h.submitted_subset hmem)
    exact ownResponses_transition h (accounted_run hbefore) (inStep_run hbefore) hfaithful_before
      (ih hfaithful_before)

/-- **The supervisor computes `evaluate`.** Every response that it gives is that of the request it
    answers, no command is answered twice, no command takes more starts or exchanges than the restart
    limit allows, the attempt counter never wraps around, and the next command finds no worker or one
    with quiet pipes. -/
theorem supervisor_evaluates (hrun : Run (kernelWorker codec) codec config s)
    (hfaithful : ∀ request ∈ s.submitted, codec.Faithful request) :
    OwnResponses s ∧ (s.answers.map Answer.ticket).Nodup ∧
    (∀ a ∈ s.answers, a.starts ≤ config.restartLimit.toNat + 1 ∧
      a.exchanges ≤ config.restartLimit.toNat + 1) ∧
    (∀ handling ∈ s.phase.handling, handling.attempt.toNat = handling.retries ∧
      handling.starts ≤ config.restartLimit.toNat + 1 ∧
      handling.exchanges ≤ config.restartLimit.toNat + 1) ∧
    (s.phase = .idle → ∀ link, s.link = some link → link.Quiet) := by
  have haccounted : Accounted config s := accounted_run hrun
  refine ⟨ownResponses_run hrun hfaithful, ?_, haccounted.books.spent, haccounted.bounds, ?_⟩
  · exact haccounted.books.nodup.of_append_left.of_append_left
  · intro hidle
    have hin : InStep codec config s := inStep_run hrun
    rw [InStep, Pipes, hidle] at hin
    exact hin

/-- A run in which the request of a client is answered. -/
theorem supervisor_evaluates_sample : ∃ s,
    Run (kernelWorker (sampleCodec sampleRequest sampleResponse))
      (sampleCodec sampleRequest sampleResponse) sampleConfig s ∧
    s.answers = [⟨0, 0, 1, .ok sampleResponse, true⟩] ∧ OwnResponses s ∧
    (s.phase = .idle → ∀ link, s.link = some link → link.Quiet) := by
  obtain ⟨s, hrun, hsubmitted, hanswers⟩ := exists_run_answered hello_sample ready_sample
    evaluate_sample (faithful_sample.read_response _ evaluate_sampleRequest)
  obtain ⟨hown, -, -, -, hquiet⟩ :=
    supervisor_evaluates hrun (faithful_submitted_sample hsubmitted)
  exact ⟨s, hrun, hanswers, hown, hquiet⟩

end Rationale.Worker
