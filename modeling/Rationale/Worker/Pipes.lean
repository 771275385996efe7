import Rationale.Worker.Supervisor

namespace Rationale.Worker

open Rationale.Library Rationale.Kernel Rationale.Wire

/-!
# Invariants of the pipes

A property of the link between exchanges, and one of the link during an exchange, that the moves of
the bytes keep.

* `Pipes` — the one or the other holds, by the phase of the supervisor;
* `Moves` — what the host, the worker and its crashes do to the two properties;
* `pipes_run` — the right one holds in every run: a worker whose exchange does not end with a frame is
  not kept.
-/

section Pipes

variable {P : Type} {process : Process P} {codec : Codec} {config : Config}
  {between begun : Link P → Prop} {during : Stage → Exchange → Link P → Prop}
  {s s' : State P} {stage : Stage} {handling : Handling}

def Phase.Pipes (between : Link P → Prop) (during : Stage → Exchange → Link P → Prop)
    (link : Option (Link P)) : Phase → Prop
  | .talking stage ex => ∃ l, link = some l ∧ during stage ex l
  | .idle => ∀ l, link = some l → between l
  | .looping _ => ∀ l, link = some l → between l
  | .stopped => ∀ l, link = some l → between l

def Pipes (between : Link P → Prop) (during : Stage → Exchange → Link P → Prop) (s : State P) :
    Prop := s.phase.Pipes between during s.link

/-- The link at the start of an exchange is `begun`. -/
structure Moves (process : Process P) (codec : Codec) (config : Config) (between begun : Link P → Prop)
    (during : Stage → Exchange → Link P → Prop) : Prop where
  fresh : begun (freshLink process)
  ask : ∀ {link : Link P}, between link → begun { link with asked := link.asked + 1 }
  start : ∀ {link : Link P} (stage : Stage), begun link →
    (codec.hostWrite stage.message).length ≤ config.maxPayload →
    during stage { unsent := frame (codec.hostWrite stage.message), got := [] } link
  hostSends : ∀ {link : Link P} {stage : Stage} {byte : UInt8} {unsent got : List UInt8},
    during stage { unsent := byte :: unsent, got } link →
    during stage { unsent, got } { link with stdin := link.stdin ++ [byte] }
  hostReceives : ∀ {link : Link P} {stage : Stage} {byte : UInt8} {got stdout : List UInt8},
    during stage { unsent := [], got } link → link.stdout = byte :: stdout →
    reading config.maxPayload (got ++ [byte]) = .more →
    during stage { unsent := [], got := got ++ [byte] } { link with stdout }
  complete : ∀ {link : Link P} {stage : Stage} {byte : UInt8} {got stdout payload : List UInt8},
    during stage { unsent := [], got } link → link.stdout = byte :: stdout →
    reading config.maxPayload (got ++ [byte]) = .complete payload → between { link with stdout }
  workerReceives : ∀ {link : Link P} {byte : UInt8} {stdin : List UInt8} {proc : P},
    link.stdin = byte :: stdin → process.recv link.proc byte = some proc →
    (between link → between { link with proc, stdin }) ∧
      ∀ stage ex, during stage ex link → during stage ex { link with proc, stdin }
  workerSends : ∀ {link : Link P} {byte : UInt8} {proc : P},
    process.send link.proc byte = some proc →
    (between link → between { link with
      proc, stdout := link.stdout ++ [byte], written := link.written ++ [byte] }) ∧
      ∀ stage ex, during stage ex link → during stage ex { link with
        proc, stdout := link.stdout ++ [byte], written := link.written ++ [byte] }
  workerCrashes : ∀ {link : Link P},
    (between link → between { link with proc := process.crashed }) ∧
      ∀ stage ex, during stage ex link → during stage ex { link with proc := process.crashed }

/-! ### Ends of an exchange -/

theorem pipes_retry {error : ProofUnavailable} :
    Pipes between during (retry config s handling error) := by
  unfold retry
  split
  · exact nofun
  · exact nofun

theorem pipes_startFails {current : Option Handling} {error : ProofUnavailable} :
    Pipes between during (startFails config s current error) := by
  cases current with
  | none => exact nofun
  | some handling => exact pipes_retry

/-- A worker is kept only between exchanges. -/
theorem pipes_finish {result : Except ProofUnavailable WorkerMessage}
    (hbetween : ∀ l, s.link = some l → between l) :
    Pipes between during (finish config s stage result) := by
  obtain ⟨s', hs', hfinished⟩ := exists_finished config s stage result
  rw [hs']
  cases hfinished with
  | launched => exact hbetween
  | started => exact hbetween
  | startFails => exact pipes_startFails
  | responded => exact hbetween
  | refused => exact hbetween
  | discarded => exact nofun
  | retried => exact pipes_retry

/-- After an error it is not kept. -/
theorem pipes_finish_error {error : ProofUnavailable} :
    Pipes between during (finish config s stage (.error error)) := by
  obtain ⟨s', hs', hfinished⟩ := exists_finished config s stage (.error error)
  rw [hs']
  cases hfinished with
  | startFails => exact pipes_startFails
  | discarded => exact nofun
  | retried => exact pipes_retry

theorem pipes_timeOut : Pipes between during (timeOut config s stage) := by
  cases stage with
  | handshake current => exact pipes_startFails
  | evaluation handling => exact pipes_retry

/-! ### Steps and runs -/

theorem pipes_exchange (hmoves : Moves process codec config between begun during) {l : Link P}
    (hlink : s.link = some l) (hbegun : begun l) :
    Pipes between during (exchange codec config s stage) := by
  unfold exchange
  dsimp only
  split
  · exact pipes_finish_error
  · rename_i hlength
    exact ⟨l, hlink, hmoves.start stage hbegun (not_lt.mp hlength)⟩

theorem pipes_receive (hmoves : Moves process codec config between begun during) {l : Link P}
    {got stdout : List UInt8} {byte : UInt8} (hduring : during stage { unsent := [], got } l)
    (hstdout : l.stdout = byte :: stdout) :
    Pipes between during (receive codec config { s with link := some { l with stdout } } stage
      (got ++ [byte])) := by
  unfold receive
  split
  · rename_i hmore
    exact ⟨_, rfl, hmoves.hostReceives hduring hstdout hmore⟩
  · exact pipes_finish_error
  · rename_i payload hcomplete
    apply pipes_finish
    intro l' hl'
    obtain rfl := Option.some.inj hl'
    exact hmoves.complete hduring hstdout hcomplete

/-- What the worker does, it does in any phase. -/
theorem pipes_worker {link link' : Link P} {submitted : List KernelRequest}
    {queue : List (Nat × KernelRequest)} {cancelled : List Nat} {answers : List Answer}
    (hs : Pipes between during s) (hlink : s.link = some link)
    (hkept : (between link → between link') ∧
      ∀ stage ex, during stage ex link → during stage ex link') :
    Pipes between during ⟨s.phase, some link', queue, submitted, cancelled, answers⟩ := by
  have hphase : ∀ phase : Phase, phase.Pipes between during (some link) →
      phase.Pipes between during (some link') := by
    intro phase h
    cases phase with
    | talking stage ex =>
      obtain ⟨l, hl, h⟩ := h
      obtain rfl := Option.some.inj hl
      exact ⟨link', rfl, hkept.2 stage ex h⟩
    | _ =>
      intro l hl
      obtain rfl := Option.some.inj hl
      exact hkept.1 (h link rfl)
  rw [Pipes, hlink] at hs
  exact hphase s.phase hs

theorem Pipes.talking {ex : Exchange} {link : Link P} (hs : Pipes between during s)
    (hphase : s.phase = .talking stage ex) (hlink : s.link = some link) : during stage ex link := by
  rw [Pipes, hphase] at hs
  obtain ⟨l, hl, hduring⟩ := hs
  obtain rfl := Option.some.inj (hlink.symm.trans hl)
  exact hduring

theorem pipes_transition (hmoves : Moves process codec config between begun during)
    (h : Transition process codec config s s') (hs : Pipes between during s) :
    Pipes between during s' := by
  cases h with
  | submit request hphase => exact hs
  | cancel ticket => exact hs
  | take hphase hqueue =>
    rw [Pipes, hphase] at hs
    exact hs
  | spawn hphase hlink => exact pipes_exchange hmoves rfl hmoves.fresh
  | spawnFails detail hphase hlink => exact pipes_retry
  | ask hphase hlink =>
    rw [Pipes, hphase] at hs
    exact pipes_exchange hmoves rfl (hmoves.ask (hs _ hlink))
  | hostSends hphase hlink =>
    exact ⟨_, rfl, hmoves.hostSends (hs.talking hphase hlink)⟩
  | hostReceives hphase hlink hstdout =>
    exact pipes_receive hmoves (hs.talking hphase hlink) hstdout
  | timesOut hphase => exact pipes_timeOut
  | disconnects detail hphase => exact pipes_finish_error
  | workerReceives hlink hstdin hrecv =>
    exact pipes_worker hs hlink (hmoves.workerReceives hstdin hrecv)
  | workerSends hlink hsend => exact pipes_worker hs hlink (hmoves.workerSends hsend)
  | workerCrashes hlink => exact pipes_worker hs hlink hmoves.workerCrashes
  | shutDown hphase hqueue => exact nofun

/-- **An invariant of the pipes** holds in every run. -/
theorem pipes_run (hmoves : Moves process codec config between begun during)
    (hrun : Run process codec config s) : Pipes between during s :=
  hrun.invariant (pipes_exchange hmoves rfl hmoves.fresh)
    (fun _ _ h => pipes_transition hmoves h)

end Pipes

end Rationale.Worker
