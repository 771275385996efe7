import Rationale.Worker.Evaluates

namespace Rationale.Worker

open Rationale.Library Rationale.Kernel Rationale.Wire

/-!
# Responses by position

The supervisor never compares the identifiers of a response with those of its request: the `n`-th
evaluation with a worker is answered by the `n`-th frame after the handshake, whichever that is.

* `Carries` — a response has the identifiers of a request;
* `InPosition` — the frame that a worker has written at the position of the evaluation under way, when
  it is a result, carries the identifiers of its request;
* `Paired` — the supervisor has read as many frames as it has begun exchanges;
* `responses_carry_ids` — runs whose workers stay in position deliver no response to another request;
* `inPosition_kernelWorker` — the kernel worker does;
* `not_responses_carry_ids` — a worker that answers the first request twice also answers the second.
-/

/-- The identifiers that a response repeats from its request. -/
def Carries (response : KernelResponse) (request : KernelRequest) : Prop :=
  match response with
  | .proof _ requestId snapshotId _ =>
    requestId = request.requestId ∧ snapshotId = request.snapshotId
  | .error _ requestId _ => requestId = request.requestId

instance (response : KernelResponse) (request : KernelRequest) :
    Decidable (Carries response request) := by
  unfold Carries
  split <;> infer_instance

section Position

variable {P : Type} {process : Process P} {codec : Codec} {config : Config} {s s' : State P}
  {stage : Stage} {handling : Handling}

/-- The frames that a worker has written: that of the handshake, and one for each evaluation. -/
def framesOf (config : Config) (link : Link P) : List (List UInt8) :=
  framesIn config.maxPayload [] link.written

/-- A result that the worker has written at the position of the evaluation under way is one for its
    request. -/
def InPosition (codec : Codec) (config : Config) (s : State P) : Prop :=
  ∀ handling ex link payload response, s.phase = .talking (.evaluation handling) ex →
    s.link = some link → (framesOf config link)[link.asked]? = some payload →
    codec.hostRead payload = .ok (.result response) → Carries response handling.request

/-- The states reached from a fresh supervisor by steps from states in position. -/
def RunInPosition (process : Process P) (codec : Codec) (config : Config) (s : State P) : Prop :=
  Relation.ReflTransGen
    (fun s s' => InPosition codec config s ∧ ∃ action, step process codec config s action = some s')
    (launch process codec config) s

/-- Of the frames that the worker writes, the host has taken the first `count`, and the bytes `got`
    of the next one; what is still to come does not matter. -/
def Consumed (config : Config) (link : Link P) (count : Nat) (got : List UInt8) : Prop :=
  ∃ payloads, payloads.length = count ∧ ∀ future,
    framesIn config.maxPayload [] (link.written ++ future) =
      payloads ++ framesIn config.maxPayload got (link.stdout ++ future)

/-- One frame for the handshake and one for each evaluation. -/
def Paired (config : Config) (s : State P) : Prop :=
  Pipes (fun link => Consumed config link (link.asked + 1) [])
    (fun _ ex link => Consumed config link link.asked ex.got) s

/-! ### Bytes -/

theorem consumed_freshLink : Consumed config (freshLink process) 0 [] :=
  ⟨[], rfl, fun _ => rfl⟩

theorem Consumed.workerSends {link : Link P} {count : Nat} {got : List UInt8} {byte : UInt8}
    {proc : P} (h : Consumed config link count got) :
    Consumed config { link with
      proc, stdout := link.stdout ++ [byte], written := link.written ++ [byte] } count got := by
  obtain ⟨payloads, hcount, hframes⟩ := h
  refine ⟨payloads, hcount, fun future => ?_⟩
  simpa using hframes ([byte] ++ future)

theorem Consumed.hostReceives {link : Link P} {count : Nat} {got stdout : List UInt8} {byte : UInt8}
    (h : Consumed config link count got) (hstdout : link.stdout = byte :: stdout)
    (hmore : reading config.maxPayload (got ++ [byte]) = .more) :
    Consumed config { link with stdout } count (got ++ [byte]) := by
  obtain ⟨payloads, hcount, hframes⟩ := h
  refine ⟨payloads, hcount, fun future => ?_⟩
  rw [hframes, hstdout, List.cons_append, framesIn_more hmore]

theorem Consumed.complete {link : Link P} {count : Nat} {got stdout payload : List UInt8}
    {byte : UInt8} (h : Consumed config link count got) (hstdout : link.stdout = byte :: stdout)
    (hcomplete : reading config.maxPayload (got ++ [byte]) = .complete payload) :
    Consumed config { link with stdout } (count + 1) [] := by
  obtain ⟨payloads, hcount, hframes⟩ := h
  refine ⟨payloads ++ [payload], by simp [hcount], fun future => ?_⟩
  rw [hframes, hstdout, List.cons_append, framesIn_complete hcomplete, List.append_assoc]
  rfl

/-- The frame at the next position is made of the bytes that the host has, and of those in the
    pipe. -/
theorem Consumed.frame_at {link : Link P} {count : Nat} {got : List UInt8}
    (h : Consumed config link count got) :
    (framesOf config link)[count]? = (framesIn config.maxPayload got link.stdout)[0]? := by
  obtain ⟨payloads, hcount, hframes⟩ := h
  have hwritten := hframes []
  rw [List.append_nil, List.append_nil] at hwritten
  rw [framesOf, hwritten, ← hcount, List.getElem?_append_right (le_refl _), Nat.sub_self]

/-! ### Runs -/

/-- Every exchange takes one frame, whatever the worker writes. -/
theorem moves_consumed : Moves process codec config
    (fun link => Consumed config link (link.asked + 1) [])
    (fun link => Consumed config link link.asked [])
    (fun _ ex link => Consumed config link link.asked ex.got) where
  fresh := consumed_freshLink
  ask h := h
  start _ h _ := h
  hostSends h := h
  hostReceives h hstdout hmore := h.hostReceives hstdout hmore
  complete h hstdout hcomplete := h.complete hstdout hcomplete
  workerReceives _ _ := ⟨fun h => h, fun _ _ h => h⟩
  workerSends _ := ⟨fun h => h.workerSends, fun _ _ h => h.workerSends⟩
  workerCrashes := ⟨fun h => h, fun _ _ h => h⟩

theorem paired_run (hrun : Run process codec config s) : Paired config s :=
  pipes_run moves_consumed hrun

/-- A step from a state in position answers with a response to the request. -/
theorem carries_transition (h : Transition process codec config s s')
    (hposition : InPosition codec config s) (haccounted : Accounted config s)
    (hpaired : Paired config s) (hs : Answered Carries s) : Answered Carries s' := by
  apply answered_transition h haccounted ?_ hs
  intro handling got link byte stdout payload response hphase hlink hstdout hcomplete hread
  have hconsumed := hpaired.talking hphase hlink
  have hat : (framesOf config link)[link.asked]? = some payload := by
    rw [hconsumed.frame_at, hstdout, framesIn_complete hcomplete]
    rfl
  exact hposition handling _ link payload response hphase hlink hat hread

/-- **Responses carry the identifiers of their requests** in every run whose workers stay in
    position. -/
theorem responses_carry_ids (hrun : RunInPosition process codec config s) :
    Answered Carries s := by
  have hboth : Run process codec config s ∧ Answered Carries s := by
    induction hrun with
    | refl => exact ⟨.refl, answered_launch⟩
    | tail _ hlast ih =>
      obtain ⟨hposition, action, haction⟩ := hlast
      obtain ⟨hbefore, hanswered⟩ := ih
      exact ⟨hbefore.step action haction, carries_transition (transition_step haction) hposition
        (accounted_run hbefore) (paired_run hbefore) hanswered⟩
  exact hboth.2

end Position

/-! ### The kernel worker is in position -/

/-- The evaluator repeats the identifiers of its request. -/
theorem carries_evaluate {request : KernelRequest} {response : KernelResponse}
    (h : evaluate request = some response) : Carries response request := by
  unfold evaluate at h
  split at h
  · obtain rfl := Option.some.inj h
    rfl
  · dsimp only at h
    split at h
    · obtain rfl := Option.some.inj h
      rfl
    · obtain ⟨proof, -, rfl⟩ := Option.map_eq_some_iff.mp h
      exact ⟨rfl, rfl⟩

section KernelWorker

variable {codec : Codec} {config : Config} {s : State Loop}

/-- What the kernel worker has on its way is the reply to the request in hand. -/
theorem inPosition_kernelWorker (haccounted : Accounted config s) (hin : InStep codec config s)
    (hpaired : Paired config s) (hfaithful : ∀ request ∈ s.submitted, codec.Faithful request) :
    InPosition codec config s := by
  intro handling ex link payload response hphase hlink hat hread
  have hmine : s.submitted[handling.ticket]? = some handling.request := haccounted.evaluated hphase
  have hconsumed := hpaired.talking hphase hlink
  have htalking := (hin.talking hphase hlink).2
  have htext : Replies codec (codec.hostWrite (.evaluate handling.request)) payload := by
    rw [hconsumed.frame_at] at hat
    exact talking_first htalking hat
  exact carries_evaluate (hostRead_replies (hfaithful _ (List.mem_of_getElem? hmine)) htext hread)

theorem Run.inPosition (hrun : Run (kernelWorker codec) codec config s)
    (hfaithful : ∀ request ∈ s.submitted, codec.Faithful request) :
    RunInPosition (kernelWorker codec) codec config s := by
  induction hrun with
  | refl => exact .refl
  | tail hbefore hlast ih =>
    obtain ⟨action, haction⟩ := hlast
    have hsubset := (transition_step haction).submitted_subset
    have hfaithful_before : ∀ request ∈ _, codec.Faithful request :=
      fun request hmem => hfaithful request (hsubset hmem)
    have hposition := inPosition_kernelWorker (accounted_run hbefore) (inStep_run hbefore)
      (paired_run hbefore) hfaithful_before
    exact (ih hfaithful_before).tail ⟨hposition, action, haction⟩

end KernelWorker

/-- A run of the kernel worker in which a request is answered. -/
theorem responses_carry_ids_sample : ∃ s,
    RunInPosition (kernelWorker (sampleCodec sampleRequest sampleResponse))
      (sampleCodec sampleRequest sampleResponse) sampleConfig s ∧
    s.answers = [⟨0, 0, 1, .ok sampleResponse, true⟩] ∧ Answered Carries s := by
  obtain ⟨s, hrun, hsubmitted, hanswers⟩ := exists_run_answered hello_sample ready_sample
    evaluate_sample (faithful_sample.read_response _ evaluate_sampleRequest)
  have hposition := hrun.inPosition (faithful_submitted_sample hsubmitted)
  exact ⟨s, hposition, hanswers, responses_carry_ids hposition⟩

/-! ### A worker out of position -/

/-- A worker that writes the bytes of a script, whatever it reads. -/
def scriptedWorker (script : List UInt8) : Process (List UInt8) where
  init := script
  recv rest _ := some rest
  send rest byte :=
    match rest with
    | [] => none
    | next :: rest => if byte = next then some rest else none
  crashed := []

section Scripted

variable {codec : Codec} {config : Config} {phase : Phase} {queue : List (Nat × KernelRequest)}
  {submitted : List KernelRequest} {cancelled : List Nat} {answers : List Answer}
  {script stdin stdout written rest : List UInt8} {asked : Nat}

theorem Run.scriptSends {bytes : List UInt8}
    (hrun : Run (scriptedWorker script) codec config ⟨phase,
      some ⟨bytes ++ rest, stdin, stdout, written, asked⟩, queue, submitted, cancelled, answers⟩) :
    Run (scriptedWorker script) codec config ⟨phase,
      some ⟨rest, stdin, stdout ++ bytes, written ++ bytes, asked⟩, queue, submitted, cancelled,
      answers⟩ := by
  induction bytes generalizing stdout written with
  | nil => simpa using hrun
  | cons byte bytes ih =>
    have hnext : Run (scriptedWorker script) codec config ⟨phase,
        some ⟨bytes ++ rest, stdin, stdout ++ [byte], written ++ [byte], asked⟩, queue, submitted,
        cancelled, answers⟩ := by
      apply hrun.step (.workerSends byte)
      simp [Worker.step, scriptedWorker]
    simpa using ih hnext

/-- An exchange in which the worker writes on, and the host takes the first frame in its pipe. -/
theorem Run.scripted (stage : Stage) (bytes rest text after : List UInt8)
    (hmax : (codec.hostWrite stage.message).length ≤ config.maxPayload)
    (hlimit : text.length ≤ config.maxPayload)
    (hrun : Run (scriptedWorker script) codec config (exchange codec config ⟨phase,
      some ⟨bytes ++ rest, stdin, stdout, written, asked⟩, queue, submitted, cancelled, answers⟩
      stage)) (hframe : stdout ++ bytes = frame text ++ after) :
    ∃ phase' stdin', Run (scriptedWorker script) codec config (finish config ⟨phase',
      some ⟨rest, stdin', after, written ++ bytes, asked⟩, queue, submitted, cancelled, answers⟩
      stage (readMessage codec text)) := by
  have htext : text.length < 2 ^ 32 := hlimit.trans_lt config.maxPayload_lt
  rw [exchange, if_neg (by omega)] at hrun
  have hwritten := hrun.hostSends.scriptSends
  have hpipe : Run (scriptedWorker script) codec config
      ⟨.talking stage { unsent := [], got := [] },
        some { (⟨rest, stdin ++ frame (codec.hostWrite stage.message), [], written ++ bytes, asked⟩ :
          Link (List UInt8)) with stdout := frame text ++ after },
        queue, submitted, cancelled, answers⟩ := by
    rw [← hframe]
    exact hwritten
  obtain ⟨phase', hfinished⟩ :=
    Run.hostReceives htext hlimit (List.nil_append _) frame_ne_nil hpipe
  exact ⟨phase', _, hfinished⟩

/-- A worker that greets, and answers the first request twice. -/
def twiceWorker (codec : Codec) (response : KernelResponse) : Process (List UInt8) :=
  scriptedWorker (frame (codec.workerWrite ready) ++
    ((frame (codec.workerWrite (resultTree response)) ++
      frame (codec.workerWrite (resultTree response))) ++ []))

/-- Its second answer is delivered as the answer to the second request. -/
theorem exists_run_twice {request other : KernelRequest} {response : KernelResponse}
    (hhello : codec.Answers config (.hello 1) ready)
    (hready : codec.hostRead (codec.workerWrite ready) = .ok (.ready 1))
    (hevaluate : codec.Answers config (.evaluate request) (resultTree response))
    (hresult : codec.hostRead (codec.workerWrite (resultTree response)) = .ok (.result response))
    (hother : (codec.hostWrite (.evaluate other)).length ≤ config.maxPayload) :
    ∃ s, Run (twiceWorker codec response) codec config s ∧ s.submitted = [request, other] ∧
      s.answers = [⟨0, 0, 1, .ok response, true⟩, ⟨1, 0, 1, .ok response, true⟩] := by
  have hlaunch : Run (twiceWorker codec response) codec config
      (launch (twiceWorker codec response) codec config) := .refl
  obtain ⟨_, _, hlaunched⟩ := Run.scripted (.handshake none) (frame (codec.workerWrite ready))
    _ (codec.workerWrite ready) [] hhello.within_host hhello.reply_within_host hlaunch (by simp)
  rw [readMessage, hready] at hlaunched
  -- both requests are queued before the first is taken
  have hsubmitted := (hlaunched.step (.submit request) rfl).step (.submit other) rfl
  have hfirst := (hsubmitted.step .take rfl).step .ask rfl
  obtain ⟨_, _, hanswered⟩ := Run.scripted _ (_ ++ _) [] (codec.workerWrite (resultTree response))
    (frame (codec.workerWrite (resultTree response))) hevaluate.within_host
    hevaluate.reply_within_host hfirst rfl
  rw [readMessage, hresult] at hanswered
  -- the worker has nothing left to write
  have hsecond := (hanswered.step .take rfl).step .ask rfl
  obtain ⟨_, _, hstale⟩ := Run.scripted _ [] [] (codec.workerWrite (resultTree response)) []
    hother hevaluate.reply_within_host hsecond rfl
  rw [readMessage, hresult] at hstale
  exact ⟨_, hstale, rfl, rfl⟩

end Scripted

/-- The sample request under another identifier. -/
def otherRequest : KernelRequest := { sampleRequest with requestId := "request-2" }

set_option maxRecDepth 2000

/-- A client is given the response to the request of another one. -/
theorem not_responses_carry_ids : ∃ s,
    Run (twiceWorker (sampleCodec sampleRequest sampleResponse) sampleResponse)
      (sampleCodec sampleRequest sampleResponse) sampleConfig s ∧
    s.submitted = [sampleRequest, otherRequest] ∧
    s.answers = [⟨0, 0, 1, .ok sampleResponse, true⟩, ⟨1, 0, 1, .ok sampleResponse, true⟩] ∧
    ¬ Answered Carries s := by
  obtain ⟨s, hrun, hsubmitted, hanswers⟩ := exists_run_twice hello_sample ready_sample
    evaluate_sample (faithful_sample.read_response _ evaluate_sampleRequest)
    (show ((sampleCodec sampleRequest sampleResponse).hostWrite
      (.evaluate otherRequest)).length ≤ sampleConfig.maxPayload by decide)
  refine ⟨s, hrun, hsubmitted, hanswers, fun hcarries => ?_⟩
  have hsecond : (⟨1, 0, 1, .ok sampleResponse, true⟩ : Answer) ∈ s.answers := by
    rw [hanswers]
    exact List.mem_cons_of_mem _ List.mem_cons_self
  obtain ⟨request, hrequest, hids⟩ := hcarries _ hsecond sampleResponse rfl
  rw [hsubmitted] at hrequest
  obtain rfl : otherRequest = request := Option.some.inj hrequest
  exact absurd hids (by decide)

end Rationale.Worker
