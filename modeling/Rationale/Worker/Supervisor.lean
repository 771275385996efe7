import Mathlib.Logic.Relation
import Rationale.Library.Frame
import Rationale.Wire.Serde

namespace Rationale.Worker

open Rationale.Library Rationale.Kernel Rationale.Wire

/-!
# The worker supervisor

`crates/rationale-protocol/src/worker.rs` as a system of byte pipes: clients queue requests and may
give up on them, the supervisor task handles one request at a time, and the worker process at the
other end of two pipes may crash at any point.

* `Process` — a worker process, byte by byte;
* `Codec` — the JSON texts of both sides, which neither side defines;
* `exchange`, `finish`, `retry`, `answer` — `Worker::exchange` and the loop of
  `evaluate_with_restart`;
* `step` — one action of the host, the worker, a client or the clock;
* `Transition` — what a step can do, and `transition_step`.

Pipes have no capacity here and bytes move one at a time, so that the runs with any capacity and any
sizes of reads and writes are among the runs of the model.
-/

/-- A worker process: what it does with a byte that it reads, which bytes it may write, and its state
    once it has crashed. -/
structure Process (P : Type) where
  init : P
  recv : P → UInt8 → Option P
  send : P → UInt8 → Option P
  crashed : P

/-- Messages of a worker to its host. -/
inductive WorkerMessage where
  | ready (protocolVersion : Int)
  | result (response : KernelResponse)
  | failure (message : String)
  deriving DecidableEq

/-- The JSON texts of the host (`serde_json`) and of the worker (`Yojson.Safe`).  A text that does not
    parse comes with the message of the parser. -/
structure Codec where
  hostWrite : HostMessage → List UInt8
  hostRead : List UInt8 → Except String WorkerMessage
  workerRead : List UInt8 → Except String Json
  workerWrite : Json → List UInt8

/-- The part of `WorkerConfig` that does not measure time, as `validate` accepts it. -/
structure Config where
  maxPayload : Nat
  restartLimit : UInt8
  maxPayload_pos : 0 < maxPayload
  maxPayload_lt : maxPayload < 2 ^ 32

/-- Reasons why there is no proof.  The texts of the operating system and of the parser are inputs. -/
inductive ProofUnavailable where
  | startFailed (detail : String)
  | handshakeFailed (detail : String)
  | timedOut
  | crashed (detail : String)
  | protocolViolation (detail : String)
  | frameTooLarge (length limit : Nat)
  deriving DecidableEq

def ProofUnavailable.text : ProofUnavailable → String
  | .startFailed detail => "proof unavailable: worker startup failed: " ++ detail
  | .handshakeFailed detail => "proof unavailable: worker handshake failed: " ++ detail
  | .timedOut => "proof unavailable: worker request timed out"
  | .crashed detail => "proof unavailable: worker crashed or disconnected: " ++ detail
  | .protocolViolation detail => "proof unavailable: worker protocol violation: " ++ detail
  | .frameTooLarge length limit =>
    "proof unavailable: worker frame length " ++ toString length ++ " exceeds limit " ++
      toString limit

/-- A worker process with its two pipes.  `written` and `asked` are history: the bytes that the
    process has written, and the evaluations that were begun with it. -/
structure Link (P : Type) where
  proc : P
  stdin : List UInt8
  stdout : List UInt8
  written : List UInt8
  asked : Nat

/-- The local variables of `evaluate_with_restart` for a command, which is named by its ticket.
    `retries`, `starts` and `exchanges` are history, counted without wrapping around. -/
structure Handling where
  ticket : Nat
  request : KernelRequest
  attempt : UInt8
  retries : Nat
  starts : Nat
  exchanges : Nat

/-- What an exchange is for. -/
inductive Stage where
  | handshake (handling : Option Handling)
  | evaluation (handling : Handling)

/-- `Worker::exchange`: the bytes of its frame still to write, and those of the reply read so far. -/
structure Exchange where
  unsent : List UInt8
  got : List UInt8

inductive Phase where
  | idle
  | looping (handling : Handling)
  | talking (stage : Stage) (exchange : Exchange)
  | stopped

/-- What a client is sent for its command, when it still waits for it. -/
structure Answer where
  ticket : Nat
  starts : Nat
  exchanges : Nat
  result : Except ProofUnavailable KernelResponse
  delivered : Bool

/-- A ticket is the position of a request among those submitted. -/
structure State (P : Type) where
  phase : Phase
  link : Option (Link P)
  queue : List (Nat × KernelRequest)
  submitted : List KernelRequest
  cancelled : List Nat
  answers : List Answer

def Stage.message : Stage → HostMessage
  | .handshake _ => .hello 1
  | .evaluation handling => .evaluate handling.request

def Handling.begin (ticket : Nat) (request : KernelRequest) : Handling :=
  { ticket, request, attempt := 0, retries := 0, starts := 0, exchanges := 0 }

section Host

variable {P : Type}

/-- `respond_to.send(result)`, which fails when the caller is gone. -/
def answer (s : State P) (handling : Handling)
    (result : Except ProofUnavailable KernelResponse) : State P :=
  { s with
    phase := .idle
    answers := s.answers ++ [{
      ticket := handling.ticket
      starts := handling.starts
      exchanges := handling.exchanges
      result
      delivered := decide (handling.ticket ∉ s.cancelled) }] }

/-- `worker.terminate(..)` and `*worker = None`. -/
def terminate (s : State P) : State P := { s with link := none }

/-- The loop goes on with the next attempt, or ends with the error. -/
def retry (config : Config) (s : State P) (handling : Handling) (error : ProofUnavailable) :
    State P :=
  if config.restartLimit ≤ handling.attempt then answer (terminate s) handling (.error error)
  else
    { terminate s with
      phase := .looping { handling with
        attempt := handling.attempt + 1, retries := handling.retries + 1 } }

/-- A failed start is retried for a command, and ends a supervisor that is just being started. -/
def startFails (config : Config) (s : State P) (handling : Option Handling)
    (error : ProofUnavailable) : State P :=
  match handling with
  | none => { terminate s with phase := .stopped }
  | some handling => retry config s handling error

/-- The end of an exchange. -/
def finish (config : Config) (s : State P) (stage : Stage)
    (result : Except ProofUnavailable WorkerMessage) : State P :=
  match stage with
  | .handshake handling =>
    match result with
    | .ok (.ready protocolVersion) =>
      if protocolVersion = 1 then
        match handling with
        | none => { s with phase := .idle }
        | some handling => { s with phase := .looping handling }
      else
        startFails config s handling
          (.handshakeFailed ("expected version 1, received " ++ toString protocolVersion))
    | .ok (.failure message) => startFails config s handling (.handshakeFailed message)
    | .ok (.result _) =>
      startFails config s handling (.handshakeFailed "worker returned a proof before readiness")
    | .error error => startFails config s handling (.handshakeFailed error.text)
  | .evaluation handling =>
    match result with
    | .ok (.result response) => answer s handling (.ok response)
    -- the worker is kept after these two
    | .ok (.failure message) => answer s handling (.error (.protocolViolation message))
    | .ok (.ready _) =>
      answer s handling (.error (.protocolViolation "worker returned readiness during evaluation"))
    | .error (.frameTooLarge length limit) =>
      answer (terminate s) handling (.error (.frameTooLarge length limit))
    | .error error => retry config s handling error

/-- The ways in which an exchange ends. -/
inductive Finished (config : Config) (s : State P) :
    Stage → Except ProofUnavailable WorkerMessage → State P → Prop where
  | launched : Finished config s (.handshake none) (.ok (.ready 1)) { s with phase := .idle }
  | started (handling : Handling) : Finished config s (.handshake (some handling)) (.ok (.ready 1))
      { s with phase := .looping handling }
  | startFails (handling : Option Handling) (result : Except ProofUnavailable WorkerMessage)
      (error : ProofUnavailable) :
      Finished config s (.handshake handling) result (startFails config s handling error)
  | responded (handling : Handling) (response : KernelResponse) :
      Finished config s (.evaluation handling) (.ok (.result response))
        (answer s handling (.ok response))
  | refused (handling : Handling) (message : WorkerMessage) (error : ProofUnavailable) :
      Finished config s (.evaluation handling) (.ok message) (answer s handling (.error error))
  | discarded (handling : Handling) (error : ProofUnavailable) :
      Finished config s (.evaluation handling) (.error error)
        (answer (terminate s) handling (.error error))
  | retried (handling : Handling) (error : ProofUnavailable) :
      Finished config s (.evaluation handling) (.error error) (retry config s handling error)

theorem finished_finish (config : Config) (s : State P) (stage : Stage)
    (result : Except ProofUnavailable WorkerMessage) :
    Finished config s stage result (finish config s stage result) := by
  cases stage with
  | handshake handling =>
    cases result with
    | error error => exact .startFails handling _ _
    | ok message =>
      cases message with
      | ready protocolVersion =>
        by_cases hversion : protocolVersion = 1
        · subst hversion
          cases handling with
          | none => exact .launched
          | some handling => exact .started handling
        · simp only [finish, if_neg hversion]
          exact .startFails handling _ _
      | result response => exact .startFails handling _ _
      | failure message => exact .startFails handling _ _
  | evaluation handling =>
    cases result with
    | error error =>
      cases error with
      | frameTooLarge length limit => exact .discarded handling _
      | _ => exact .retried handling _
    | ok message =>
      cases message with
      | result response => exact .responded handling response
      | _ => exact .refused handling _ _

theorem exists_finished (config : Config) (s : State P) (stage : Stage)
    (result : Except ProofUnavailable WorkerMessage) :
    ∃ s', finish config s stage result = s' ∧ Finished config s stage result s' :=
  ⟨_, rfl, finished_finish config s stage result⟩

/-- The start of an exchange. -/
def exchange (codec : Codec) (config : Config) (s : State P) (stage : Stage) : State P :=
  let payload := codec.hostWrite stage.message
  if config.maxPayload < payload.length then
    finish config s stage (.error (.frameTooLarge payload.length config.maxPayload))
  else { s with phase := .talking stage { unsent := frame payload, got := [] } }

/-- A deadline that passes during an exchange. -/
def timeOut (config : Config) (s : State P) (stage : Stage) : State P :=
  match stage with
  | .handshake handling =>
    startFails config s handling (.handshakeFailed "worker readiness timed out")
  | .evaluation handling => retry config s handling .timedOut

def readMessage (codec : Codec) (payload : List UInt8) : Except ProofUnavailable WorkerMessage :=
  (codec.hostRead payload).mapError fun error =>
    .protocolViolation ("invalid worker response: " ++ error)

/-- One byte of the reply. -/
def receive (codec : Codec) (config : Config) (s : State P) (stage : Stage) (got : List UInt8) :
    State P :=
  match reading config.maxPayload got with
  | .more => { s with phase := .talking stage { unsent := [], got } }
  | .tooLarge length => finish config s stage (.error (.frameTooLarge length config.maxPayload))
  | .complete payload => finish config s stage (readMessage codec payload)

end Host

/-! ### Steps -/

inductive Action where
  | submit (request : KernelRequest)
  | cancel (ticket : Nat)
  | take
  | spawn
  | spawnFails (detail : String)
  | ask
  | hostSends
  | hostReceives
  | timesOut
  | disconnects (detail : String)
  | workerReceives
  | workerSends (byte : UInt8)
  | workerCrashes
  | shutDown

section Steps

variable {P : Type} (process : Process P) (codec : Codec) (config : Config)

def freshLink : Link P :=
  { proc := process.init, stdin := [], stdout := [], written := [], asked := 0 }

/-- `WorkerSupervisor::start`, with the process spawned. -/
def launch : State P :=
  exchange codec config
    { phase := .stopped, link := some (freshLink process), queue := [], submitted := [],
      cancelled := [], answers := [] }
    (.handshake none)

def step (s : State P) : Action → Option (State P)
  | .submit request =>
    match s.phase with
    | .stopped => none
    | _ => some { s with
        queue := s.queue ++ [(s.submitted.length, request)]
        submitted := s.submitted ++ [request] }
  | .cancel ticket => some { s with cancelled := ticket :: s.cancelled }
  | .take =>
    match s.phase, s.queue with
    | .idle, (ticket, request) :: queue =>
      some { s with queue, phase := .looping (.begin ticket request) }
    | _, _ => none
  | .spawn =>
    match s.phase, s.link with
    | .looping handling, none =>
      some (exchange codec config { s with link := some (freshLink process) }
        (.handshake (some { handling with starts := handling.starts + 1 })))
    | _, _ => none
  | .spawnFails detail =>
    match s.phase, s.link with
    | .looping handling, none =>
      some (retry config s { handling with starts := handling.starts + 1 } (.startFailed detail))
    | _, _ => none
  | .ask =>
    match s.phase, s.link with
    | .looping handling, some link =>
      some (exchange codec config { s with link := some { link with asked := link.asked + 1 } }
        (.evaluation { handling with exchanges := handling.exchanges + 1 }))
    | _, _ => none
  | .hostSends =>
    match s.phase, s.link with
    | .talking stage { unsent := byte :: unsent, got }, some link =>
      some { s with
        phase := .talking stage { unsent, got }
        link := some { link with stdin := link.stdin ++ [byte] } }
    | _, _ => none
  | .hostReceives =>
    match s.phase, s.link with
    | .talking stage { unsent := [], got }, some link =>
      match link.stdout with
      | [] => none
      | byte :: stdout =>
        some (receive codec config { s with link := some { link with stdout } } stage
          (got ++ [byte]))
    | _, _ => none
  | .timesOut =>
    match s.phase with
    | .talking stage _ => some (timeOut config s stage)
    | _ => none
  -- a broken pipe or the end of the reply, seen at any point of an exchange
  | .disconnects detail =>
    match s.phase with
    | .talking stage _ => some (finish config s stage (.error (.crashed detail)))
    | _ => none
  | .workerReceives =>
    match s.link with
    | some link =>
      match link.stdin with
      | [] => none
      | byte :: stdin =>
        (process.recv link.proc byte).map fun proc =>
          { s with link := some { link with proc, stdin } }
    | none => none
  | .workerSends byte =>
    match s.link with
    | some link =>
      (process.send link.proc byte).map fun proc =>
        { s with link := some { link with
          proc, stdout := link.stdout ++ [byte], written := link.written ++ [byte] } }
    | none => none
  | .workerCrashes =>
    match s.link with
    | some link => some { s with link := some { link with proc := process.crashed } }
    | none => none
  -- every client is gone
  | .shutDown =>
    match s.phase, s.queue with
    | .idle, [] => some { terminate s with phase := .stopped }
    | _, _ => none

/-- What a step can do. -/
inductive Transition : State P → State P → Prop where
  | submit {s : State P} (request : KernelRequest) (hphase : s.phase ≠ .stopped) :
    Transition s { s with
      queue := s.queue ++ [(s.submitted.length, request)]
      submitted := s.submitted ++ [request] }
  | cancel {s : State P} (ticket : Nat) :
    Transition s { s with cancelled := ticket :: s.cancelled }
  | take {s : State P} {ticket : Nat} {request : KernelRequest}
    {queue : List (Nat × KernelRequest)} (hphase : s.phase = .idle)
    (hqueue : s.queue = (ticket, request) :: queue) :
    Transition s { s with queue, phase := .looping (.begin ticket request) }
  | spawn {s : State P} {handling : Handling} (hphase : s.phase = .looping handling)
    (hlink : s.link = none) :
    Transition s (exchange codec config { s with link := some (freshLink process) }
      (.handshake (some { handling with starts := handling.starts + 1 })))
  | spawnFails {s : State P} {handling : Handling} (detail : String)
    (hphase : s.phase = .looping handling) (hlink : s.link = none) :
    Transition s (retry config s { handling with starts := handling.starts + 1 }
      (.startFailed detail))
  | ask {s : State P} {handling : Handling} {link : Link P}
    (hphase : s.phase = .looping handling) (hlink : s.link = some link) :
    Transition s (exchange codec config { s with link := some { link with asked := link.asked + 1 } }
      (.evaluation { handling with exchanges := handling.exchanges + 1 }))
  | hostSends {s : State P} {stage : Stage} {byte : UInt8} {unsent got : List UInt8} {link : Link P}
    (hphase : s.phase = .talking stage { unsent := byte :: unsent, got })
    (hlink : s.link = some link) :
    Transition s { s with
      phase := .talking stage { unsent, got }
      link := some { link with stdin := link.stdin ++ [byte] } }
  | hostReceives {s : State P} {stage : Stage} {got : List UInt8} {link : Link P} {byte : UInt8}
    {stdout : List UInt8} (hphase : s.phase = .talking stage { unsent := [], got })
    (hlink : s.link = some link) (hstdout : link.stdout = byte :: stdout) :
    Transition s (receive codec config { s with link := some { link with stdout } } stage
      (got ++ [byte]))
  | timesOut {s : State P} {stage : Stage} {exchange : Exchange}
    (hphase : s.phase = .talking stage exchange) : Transition s (timeOut config s stage)
  | disconnects {s : State P} {stage : Stage} {exchange : Exchange} (detail : String)
    (hphase : s.phase = .talking stage exchange) :
    Transition s (finish config s stage (.error (.crashed detail)))
  | workerReceives {s : State P} {link : Link P} {byte : UInt8} {stdin : List UInt8} {proc : P}
    (hlink : s.link = some link) (hstdin : link.stdin = byte :: stdin)
    (hrecv : process.recv link.proc byte = some proc) :
    Transition s { s with link := some { link with proc, stdin } }
  | workerSends {s : State P} {link : Link P} {byte : UInt8} {proc : P} (hlink : s.link = some link)
    (hsend : process.send link.proc byte = some proc) :
    Transition s { s with link := some { link with
      proc, stdout := link.stdout ++ [byte], written := link.written ++ [byte] } }
  | workerCrashes {s : State P} {link : Link P} (hlink : s.link = some link) :
    Transition s { s with link := some { link with proc := process.crashed } }
  | shutDown {s : State P} (hphase : s.phase = .idle) (hqueue : s.queue = []) :
    Transition s { terminate s with phase := .stopped }

variable {process codec config}

theorem transition_step {s s' : State P} {action : Action}
    (h : step process codec config s action = some s') : Transition process codec config s s' := by
  cases action with
  -- every `split` is on the guard of the action, and only a guard that holds returns a state
  | submit request =>
    simp only [step] at h
    split at h
    · exact nomatch h
    · rename_i hphase
      obtain rfl := Option.some.inj h
      exact .submit request (fun heq => hphase heq)
  | cancel ticket =>
    obtain rfl := Option.some.inj h
    exact .cancel ticket
  | take =>
    simp only [step] at h
    split at h
    · rename_i hphase hqueue
      obtain rfl := Option.some.inj h
      exact .take hphase hqueue
    · exact nomatch h
  | spawn =>
    simp only [step] at h
    split at h
    · rename_i hphase hlink
      obtain rfl := Option.some.inj h
      exact .spawn hphase hlink
    · exact nomatch h
  | spawnFails detail =>
    simp only [step] at h
    split at h
    · rename_i hphase hlink
      obtain rfl := Option.some.inj h
      exact .spawnFails detail hphase hlink
    · exact nomatch h
  | ask =>
    simp only [step] at h
    split at h
    · rename_i hphase hlink
      obtain rfl := Option.some.inj h
      exact .ask hphase hlink
    · exact nomatch h
  | hostSends =>
    simp only [step] at h
    split at h
    · rename_i hphase hlink
      obtain rfl := Option.some.inj h
      exact .hostSends hphase hlink
    · exact nomatch h
  | hostReceives =>
    simp only [step] at h
    split at h
    · rename_i hphase hlink
      split at h
      · exact nomatch h
      · rename_i hstdout
        obtain rfl := Option.some.inj h
        exact .hostReceives hphase hlink hstdout
    · exact nomatch h
  | timesOut =>
    simp only [step] at h
    split at h
    · rename_i hphase
      obtain rfl := Option.some.inj h
      exact .timesOut hphase
    · exact nomatch h
  | disconnects detail =>
    simp only [step] at h
    split at h
    · rename_i hphase
      obtain rfl := Option.some.inj h
      exact .disconnects detail hphase
    · exact nomatch h
  | workerReceives =>
    simp only [step] at h
    split at h
    · rename_i hlink
      split at h
      · exact nomatch h
      · rename_i hstdin
        -- a worker that has ended takes no byte
        obtain ⟨proc, hrecv, rfl⟩ := Option.map_eq_some_iff.mp h
        exact .workerReceives hlink hstdin hrecv
    · exact nomatch h
  | workerSends byte =>
    simp only [step] at h
    split at h
    · rename_i hlink
      obtain ⟨proc, hsend, rfl⟩ := Option.map_eq_some_iff.mp h
      exact .workerSends hlink hsend
    · exact nomatch h
  | workerCrashes =>
    simp only [step] at h
    split at h
    · rename_i hlink
      obtain rfl := Option.some.inj h
      exact .workerCrashes hlink
    · exact nomatch h
  | shutDown =>
    simp only [step] at h
    split at h
    · rename_i hphase hqueue
      obtain rfl := Option.some.inj h
      exact .shutDown hphase hqueue
    · exact nomatch h

/-! ### Nothing is forgotten -/

theorem submitted_retry {s : State P} {handling : Handling} {error : ProofUnavailable} :
    (retry config s handling error).submitted = s.submitted := by
  unfold retry
  split <;> rfl

theorem submitted_startFails {s : State P} {handling : Option Handling} {error : ProofUnavailable} :
    (startFails config s handling error).submitted = s.submitted := by
  cases handling with
  | none => rfl
  | some handling => exact submitted_retry

theorem submitted_finish {s : State P} {stage : Stage}
    {result : Except ProofUnavailable WorkerMessage} :
    (finish config s stage result).submitted = s.submitted := by
  obtain ⟨s', hs', hfinished⟩ := exists_finished config s stage result
  rw [hs']
  cases hfinished with
  | startFails => exact submitted_startFails
  | retried => exact submitted_retry
  | _ => rfl

theorem submitted_exchange {s : State P} {stage : Stage} :
    (exchange codec config s stage).submitted = s.submitted := by
  unfold exchange
  dsimp only
  split
  · exact submitted_finish
  · rfl

theorem submitted_receive {s : State P} {stage : Stage} {got : List UInt8} :
    (receive codec config s stage got).submitted = s.submitted := by
  unfold receive
  split
  · rfl
  · exact submitted_finish
  · exact submitted_finish

theorem submitted_timeOut {s : State P} {stage : Stage} :
    (timeOut config s stage).submitted = s.submitted := by
  cases stage with
  | handshake handling => exact submitted_startFails
  | evaluation handling => exact submitted_retry

theorem Transition.submitted_subset {s s' : State P} (h : Transition process codec config s s') :
    s.submitted ⊆ s'.submitted := by
  cases h with
  | submit request hphase => exact List.subset_append_left _ _
  | spawn hphase hlink =>
    rw [submitted_exchange]
    exact List.Subset.refl _
  | spawnFails detail hphase hlink =>
    rw [submitted_retry]
    exact List.Subset.refl _
  | ask hphase hlink =>
    rw [submitted_exchange]
    exact List.Subset.refl _
  | hostReceives hphase hlink hstdout =>
    rw [submitted_receive]
    exact List.Subset.refl _
  | timesOut hphase =>
    rw [submitted_timeOut]
    exact List.Subset.refl _
  | disconnects detail hphase =>
    rw [submitted_finish]
    exact List.Subset.refl _
  | _ => exact List.Subset.refl _

variable (process codec config)

/-- The states reached from a fresh supervisor. -/
def Run (s : State P) : Prop :=
  Relation.ReflTransGen (fun s s' => ∃ action, step process codec config s action = some s')
    (launch process codec config) s

variable {process codec config}

/-- What holds of a fresh supervisor and survives every step holds in every run. -/
theorem Run.invariant {p : State P → Prop} (hlaunch : p (launch process codec config))
    (hstep : ∀ s s', Transition process codec config s s' → p s → p s') {s : State P}
    (hrun : Run process codec config s) : p s := by
  induction hrun with
  | refl => exact hlaunch
  | tail _ hlast ih =>
    obtain ⟨action, haction⟩ := hlast
    exact hstep _ _ (transition_step haction) ih

end Steps

end Rationale.Worker
