import Rationale.Worker.Loop

namespace Rationale.Worker

open Rationale.Library Rationale.Kernel Rationale.Wire

/-!
# Undisturbed exchanges

An exchange with the kernel worker that nothing interrupts ends with the worker's reply: all bytes of
the request move to the worker, and all bytes of the reply move back.
-/

section Host

variable {P : Type} {process : Process P} {codec : Codec} {config : Config} {stage : Stage}
  {queue : List (Nat × KernelRequest)} {submitted : List KernelRequest} {cancelled : List Nat}
  {answers : List Answer}

theorem Run.step {s s' : State P} (hrun : Run process codec config s) (action : Action)
    (h : Worker.step process codec config s action = some s') : Run process codec config s' :=
  hrun.tail ⟨action, h⟩

/-- The host writes its whole frame. -/
theorem Run.hostSends {bytes got : List UInt8} {link : Link P}
    (hrun : Run process codec config ⟨.talking stage { unsent := bytes, got }, some link, queue,
      submitted, cancelled, answers⟩) :
    Run process codec config ⟨.talking stage { unsent := [], got },
      some { link with stdin := link.stdin ++ bytes }, queue, submitted, cancelled, answers⟩ := by
  induction bytes generalizing link with
  | nil =>
    rw [List.append_nil]
    exact hrun
  | cons byte bytes ih =>
    have hrest := ih (hrun.step .hostSends rfl)
    simpa using hrest

/-- The host reads a whole frame from its pipe, and nothing behind it. -/
theorem Run.hostReceives {bytes got after text : List UInt8} {link : Link P}
    (hlength : text.length < 2 ^ 32) (hlimit : text.length ≤ config.maxPayload)
    (hframe : got ++ bytes = frame text) (hbytes : bytes ≠ [])
    (hrun : Run process codec config ⟨.talking stage { unsent := [], got },
      some { link with stdout := bytes ++ after }, queue, submitted, cancelled, answers⟩) :
    ∃ phase, Run process codec config (finish config
      ⟨phase, some { link with stdout := after }, queue, submitted, cancelled, answers⟩ stage
      (readMessage codec text)) := by
  induction bytes generalizing got with
  | nil => exact absurd rfl hbytes
  | cons byte bytes ih =>
    have hgot : (got ++ [byte]) ++ bytes = frame text := by simpa using hframe
    have hnext := hrun.step .hostReceives rfl
    by_cases hlast : bytes = []
    · -- the last byte completes the frame
      subst hlast
      rw [List.append_nil] at hgot
      rw [receive, hgot, reading_frame hlength hlimit] at hnext
      exact ⟨_, hnext⟩
    · rw [receive, reading_eq_more hlength hlimit hgot hlast] at hnext
      exact ih hgot hlast hnext

end Host

section Worker

variable {codec : Codec} {config : Config} {phase : Phase} {queue : List (Nat × KernelRequest)}
  {submitted : List KernelRequest} {cancelled : List Nat} {answers : List Answer}
  {stdin stdout written : List UInt8} {asked : Nat}

/-- The worker reads a whole frame. -/
theorem Run.workerReceives {bytes read message : List UInt8} (hlength : message.length < 2 ^ 32)
    (hlimit : message.length ≤ maxFrameLength) (hframe : read ++ bytes = frame message)
    (hbytes : bytes ≠ [])
    (hrun : Run (kernelWorker codec) codec config ⟨phase,
      some ⟨.reading read, bytes, stdout, written, asked⟩, queue, submitted, cancelled, answers⟩) :
    Run (kernelWorker codec) codec config ⟨phase,
      some ⟨.reply codec message, [], stdout, written, asked⟩, queue, submitted, cancelled,
      answers⟩ := by
  induction bytes generalizing read with
  | nil => exact absurd rfl hbytes
  | cons byte bytes ih =>
    have hread : (read ++ [byte]) ++ bytes = frame message := by simpa using hframe
    by_cases hlast : bytes = []
    · subst hlast
      rw [List.append_nil] at hread
      apply hrun.step .workerReceives
      simp [Worker.step, kernelWorker, Loop.recv, hread, reading_frame hlength hlimit]
    · apply ih hread hlast
      apply hrun.step .workerReceives
      simp [Worker.step, kernelWorker, Loop.recv, reading_eq_more hlength hlimit hread hlast]

/-- The worker writes its whole frame. -/
theorem Run.workerSends {bytes : List UInt8}
    (hrun : Run (kernelWorker codec) codec config ⟨phase,
      some ⟨.written bytes, stdin, stdout, written, asked⟩, queue, submitted, cancelled, answers⟩) :
    Run (kernelWorker codec) codec config ⟨phase,
      some ⟨.reading [], stdin, stdout ++ bytes, written ++ bytes, asked⟩, queue, submitted,
      cancelled, answers⟩ := by
  induction bytes generalizing stdout written with
  | nil => simpa [Loop.written] using hrun
  | cons byte bytes ih =>
    have hnext : Run (kernelWorker codec) codec config ⟨phase,
        some ⟨.written bytes, stdin, stdout ++ [byte], written ++ [byte], asked⟩, queue, submitted,
        cancelled, answers⟩ := by
      apply hrun.step (.workerSends byte)
      simp [Worker.step, kernelWorker, Loop.written, Loop.send]
    simpa using ih hnext

/-- The worker answers the message with the tree, and both texts are within all limits. -/
structure Codec.Answers (codec : Codec) (config : Config) (message : HostMessage) (tree : Json) :
    Prop where
  within_host : (codec.hostWrite message).length ≤ config.maxPayload
  within_worker : (codec.hostWrite message).length ≤ maxFrameLength
  answer : processPayload codec (codec.hostWrite message) = some tree
  reply_within_worker : (codec.workerWrite tree).length ≤ 0x7fffffff
  reply_within_host : (codec.workerWrite tree).length ≤ config.maxPayload

/-- **An undisturbed exchange** ends with the reply of the worker. -/
theorem Run.undisturbed (stage : Stage) {tree : Json}
    (hanswers : codec.Answers config stage.message tree)
    (hrun : Run (kernelWorker codec) codec config (exchange codec config ⟨phase,
      some ⟨.reading [], [], [], written, asked⟩, queue, submitted, cancelled, answers⟩ stage)) :
    ∃ phase' written', Run (kernelWorker codec) codec config (finish config ⟨phase',
      some ⟨.reading [], [], [], written', asked⟩, queue, submitted, cancelled, answers⟩ stage
      (readMessage codec (codec.workerWrite tree))) := by
  obtain ⟨hmax, hlimit, htree, hshort, hreply⟩ := hanswers
  have hmessage : (codec.hostWrite stage.message).length < 2 ^ 32 :=
    hmax.trans_lt config.maxPayload_lt
  have htext : (codec.workerWrite tree).length < 2 ^ 32 := hreply.trans_lt config.maxPayload_lt
  rw [exchange, if_neg (by omega)] at hrun
  -- there
  have hsent := hrun.hostSends
  rw [List.nil_append] at hsent
  have hreceived := Run.workerReceives hmessage hlimit (List.nil_append _) frame_ne_nil hsent
  have hloop : Loop.reply codec (codec.hostWrite stage.message) =
      .written (frame (codec.workerWrite tree)) := by
    simp [Loop.reply, htree, Loop.written, frame_ne_nil]
    omega
  rw [hloop] at hreceived
  -- and back
  have hanswered := hreceived.workerSends
  have hpipe : Run (kernelWorker codec) codec config
      ⟨.talking stage { unsent := [], got := [] },
        some { (⟨.reading [], [], [], written ++ frame (codec.workerWrite tree), asked⟩ : Link Loop)
          with stdout := frame (codec.workerWrite tree) ++ [] },
        queue, submitted, cancelled, answers⟩ := by simpa using hanswered
  obtain ⟨phase', hfinished⟩ :=
    Run.hostReceives htext hreply (List.nil_append _) frame_ne_nil hpipe
  exact ⟨phase', _, hfinished⟩

end Worker

/-- A request that nothing disturbs is answered with its response. -/
theorem exists_run_answered {codec : Codec} {config : Config} {request : KernelRequest}
    {response : KernelResponse} (hhello : codec.Answers config (.hello 1) ready)
    (hready : codec.hostRead (codec.workerWrite ready) = .ok (.ready 1))
    (hevaluate : codec.Answers config (.evaluate request) (resultTree response))
    (hresult : codec.hostRead (codec.workerWrite (resultTree response)) = .ok (.result response)) :
    ∃ s, Run (kernelWorker codec) codec config s ∧ s.submitted = [request] ∧
      s.answers = [⟨0, 0, 1, .ok response, true⟩] := by
  have hlaunch : Run (kernelWorker codec) codec config
      (launch (kernelWorker codec) codec config) := .refl
  obtain ⟨phase, written, hlaunched⟩ := Run.undisturbed (.handshake none) hhello hlaunch
  rw [readMessage, hready] at hlaunched
  have hasked := ((hlaunched.step (.submit request) rfl).step .take rfl).step .ask rfl
  obtain ⟨phase', written', hanswered⟩ := Run.undisturbed _ hevaluate hasked
  rw [readMessage, hresult] at hanswered
  exact ⟨_, hanswered, rfl, rfl⟩

/-! ### Texts of one request -/

def bytesOf (text : String) : List UInt8 := text.toUTF8.data.toList

def quoted (text : String) : List UInt8 := bytesOf "\"" ++ bytesOf text ++ bytesOf "\""

mutual

/-- The compact text of a tree whose strings need no escapes. -/
def jsonText : Json → List UInt8
  | .null => bytesOf "null"
  | .bool value => bytesOf (if value then "true" else "false")
  | .int value => bytesOf (toString value)
  | .intlit literal => bytesOf literal
  | .float literal => bytesOf literal
  | .string value => quoted value
  | .list values => bytesOf "[" ++ (bytesOf ",").intercalate (itemTexts values) ++ bytesOf "]"
  | .assoc fields =>
    bytesOf "\x7b" ++ (bytesOf ",").intercalate (fieldTexts fields) ++ bytesOf "\x7d"

def itemTexts : List Json → List (List UInt8)
  | [] => []
  | value :: values => jsonText value :: itemTexts values

def fieldTexts : List (String × Json) → List (List UInt8)
  | [] => []
  | (name, value) :: fields => (quoted name ++ bytesOf ":" ++ jsonText value) :: fieldTexts fields

end

/-- Parsers of the texts of a greeting and of one request with its response. -/
def sampleCodec (request : KernelRequest) (response : KernelResponse) : Codec where
  hostWrite message := jsonText (serializeHostMessage message)
  workerWrite := jsonText
  workerRead text :=
    if text = jsonText (serializeHostMessage (.hello 1)) then
      .ok (serializeHostMessage (.hello 1))
    else if text = jsonText (serializeHostMessage (.evaluate request)) then
      .ok (serializeHostMessage (.evaluate request))
    else .error "Line 1, bytes 0-1: Invalid token"
  hostRead text :=
    if text = jsonText ready then .ok (.ready 1)
    else if text = jsonText (resultTree response) then .ok (.result response)
    else .error "expected value at line 1 column 1"

def sampleConfig : Config where
  maxPayload := 8 * 1024 * 1024
  restartLimit := 1
  maxPayload_pos := by decide
  maxPayload_lt := by decide

/-- A request whose target is missing. -/
def sampleRequest : KernelRequest where
  protocolVersion := 1
  requestId := "request-1"
  snapshotId := "snapshot-1"
  goal := { targetId := "target-1", anchorKinds := [.decision] }
  nodes := []
  edges := []
  conflicts := []

def sampleResponse : KernelResponse :=
  .error 1 "request-1" ⟨.missingRecord, "proof target is absent from the evidence slice"⟩

theorem evaluate_sampleRequest : evaluate sampleRequest = some sampleResponse := by decide

theorem faithful_sample : (sampleCodec sampleRequest sampleResponse).Faithful sampleRequest := by
  refine ⟨?_, fun response hresponse => ?_⟩
  · have hne : jsonText (serializeHostMessage (.evaluate sampleRequest)) ≠
        jsonText (serializeHostMessage (.hello 1)) := by decide
    simp only [sampleCodec, if_neg hne, if_pos trivial]
  · obtain rfl : sampleResponse = response :=
      Option.some.inj (evaluate_sampleRequest.symm.trans hresponse)
    have hne : jsonText (resultTree sampleResponse) ≠ jsonText ready := by decide
    simp only [sampleCodec, if_neg hne, if_pos trivial]

theorem faithful_submitted_sample {P : Type} {s : State P} (h : s.submitted = [sampleRequest]) :
    ∀ request ∈ s.submitted, (sampleCodec sampleRequest sampleResponse).Faithful request := by
  intro request hmem
  rw [h] at hmem
  rw [List.mem_singleton.mp hmem]
  exact faithful_sample

theorem hello_sample :
    (sampleCodec sampleRequest sampleResponse).Answers sampleConfig (.hello 1) ready where
  within_host := by decide
  within_worker := by decide
  answer := by
    have hread : (sampleCodec sampleRequest sampleResponse).workerRead
        ((sampleCodec sampleRequest sampleResponse).hostWrite (.hello 1)) =
          .ok (serializeHostMessage (.hello 1)) := by
      simp only [sampleCodec, if_pos trivial]
    rw [processPayload, hread]
    exact handle_hello
  reply_within_worker := by decide
  reply_within_host := by decide

theorem ready_sample : (sampleCodec sampleRequest sampleResponse).hostRead
    ((sampleCodec sampleRequest sampleResponse).workerWrite ready) = .ok (.ready 1) := by
  simp only [sampleCodec, if_pos trivial]

set_option maxRecDepth 2000

theorem evaluate_sample : (sampleCodec sampleRequest sampleResponse).Answers sampleConfig
    (.evaluate sampleRequest) (resultTree sampleResponse) where
  within_host := by decide
  within_worker := by decide
  answer := by
    rw [processPayload, faithful_sample.read_request]
    dsimp only
    rw [handle_evaluate, evaluate_sampleRequest, Option.map_some]
  reply_within_worker := by decide
  reply_within_host := by decide

end Rationale.Worker
