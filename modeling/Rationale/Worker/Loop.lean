import Rationale.Wire.Worker
import Rationale.Worker.Accounting

namespace Rationale.Worker

open Rationale.Library Rationale.Kernel Rationale.Wire

/-!
# The kernel worker behind the supervisor

The loop of `ocaml/worker/main.ml` reads a frame, evaluates it and writes a frame.

* `Loop`, `kernelWorker` — the worker process, byte by byte;
* `Link.Quiet` — both pipes are empty, at the boundary of a frame;
* `Talking` — where the bytes of the request and of its reply are during an exchange: each move of a
  byte keeps it, and `talking_complete` says what the host has at the end.
-/

/-! ### The worker -/

def maxFrameLength : Nat := 8 * 1024 * 1024

inductive Loop where
  | reading (got : List UInt8)
  | writing (rest : List UInt8)
  | exited
  deriving DecidableEq

/-- `process`.  An exception other than the parser's ends the worker. -/
def processPayload (codec : Codec) (payload : List UInt8) : Option Json :=
  match codec.workerRead payload with
  | .ok json => handle json
  | .error message => some (failTree ("invalid worker JSON: " ++ message))

/-- `write_frame` takes lengths of 31 bits only. -/
def Loop.reply (codec : Codec) (payload : List UInt8) : Loop :=
  match processPayload codec payload with
  | none => .exited
  | some tree =>
    if 0x7fffffff < (codec.workerWrite tree).length then .exited
    else .writing (frame (codec.workerWrite tree))

def Loop.recv (codec : Codec) : Loop → UInt8 → Option Loop
  | .reading got, byte =>
    match Library.reading maxFrameLength (got ++ [byte]) with
    | .more => some (.reading (got ++ [byte]))
    | .tooLarge _ => some .exited
    | .complete payload => some (.reply codec payload)
  | .writing _, _ => none
  | .exited, _ => none

/-- The loop reads again when the frame is written. -/
def Loop.written (rest : List UInt8) : Loop := if rest = [] then .reading [] else .writing rest

def Loop.send : Loop → UInt8 → Option Loop
  | .writing (next :: rest), byte => if byte = next then some (.written rest) else none
  | _, _ => none

def kernelWorker (codec : Codec) : Process Loop :=
  { init := .reading [], recv := Loop.recv codec, send := Loop.send, crashed := .exited }

/-! ### Assumptions on the texts -/

/-- The worker parses the host's text of the request, and the host that of the response to it. -/
structure Codec.Faithful (codec : Codec) (request : KernelRequest) : Prop where
  read_request : codec.workerRead (codec.hostWrite (.evaluate request)) =
    .ok (serializeHostMessage (.evaluate request))
  read_response : ∀ response, evaluate request = some response →
    codec.hostRead (codec.workerWrite (resultTree response)) = .ok (.result response)

/-! ### Where the bytes are -/

/-- Nothing is under way, and nothing is left unread. -/
structure Link.Quiet (link : Link Loop) : Prop where
  stdin_eq : link.stdin = []
  stdout_eq : link.stdout = []
  boundary : link.proc = .reading [] ∨ link.proc = .exited

/-- The worker answers the message with the text. -/
def Replies (codec : Codec) (message text : List UInt8) : Prop :=
  ∃ tree, processPayload codec message = some tree ∧ text = codec.workerWrite tree ∧
    text.length ≤ 0x7fffffff

/-- During an exchange the bytes of the request are on their way to the worker, or those of the reply
    on their way back, unless the worker has died on the way. -/
inductive Talking (codec : Codec) (message : List UInt8) (link : Link Loop) (ex : Exchange) :
    Prop where
  | asking (read : List UInt8) (hproc : link.proc = .reading read)
    (hframe : read ++ link.stdin ++ ex.unsent = frame message) (hstdout : link.stdout = [])
    (hgot : ex.got = [])
  | answering (text rest : List UInt8) (htext : Replies codec message text)
    (hproc : link.proc = .written rest) (hframe : ex.got ++ link.stdout ++ rest = frame text)
    (hstdin : link.stdin = []) (hunsent : ex.unsent = [])
  | lost (hproc : link.proc = .exited) (hstdout : link.stdout = []) (hgot : ex.got = [])
  | cut (text : List UInt8) (htext : Replies codec message text) (hproc : link.proc = .exited)
    (hframe : ex.got ++ link.stdout <+: frame text) (hstdin : link.stdin = [])
    (hunsent : ex.unsent = [])

section Talking

variable {codec : Codec} {message text : List UInt8} {link : Link Loop} {ex : Exchange}
  {byte : UInt8}

theorem Replies.length_lt (h : Replies codec message text) : text.length < 2 ^ 32 := by
  obtain ⟨_, -, -, hlength⟩ := h
  omega

theorem talking_begin (hquiet : link.Quiet) :
    Talking codec message link { unsent := frame message, got := [] } := by
  obtain hreading | hexited := hquiet.boundary
  · refine .asking [] hreading ?_ hquiet.stdout_eq rfl
    rw [hquiet.stdin_eq]
    rfl
  · exact .lost hexited hquiet.stdout_eq rfl

theorem talking_hostSends {unsent got : List UInt8}
    (h : Talking codec message link { unsent := byte :: unsent, got }) :
    Talking codec message { link with stdin := link.stdin ++ [byte] } { unsent, got } := by
  cases h with
  | asking read hproc hframe hstdout hgot =>
    refine .asking read hproc ?_ hstdout hgot
    simpa using hframe
  | answering text rest htext hproc hframe hstdin hunsent => exact nomatch hunsent
  | lost hproc hstdout hgot => exact .lost hproc hstdout hgot
  | cut text htext hproc hframe hstdin hunsent => exact nomatch hunsent

theorem talking_hostReceives {unsent got stdout : List UInt8}
    (h : Talking codec message link { unsent, got }) (hbyte : link.stdout = byte :: stdout) :
    Talking codec message { link with stdout } { unsent, got := got ++ [byte] } := by
  cases h with
  | asking read hproc hframe hstdout hgot =>
    rw [hstdout] at hbyte
    exact nomatch hbyte
  | answering text rest htext hproc hframe hstdin hunsent =>
    refine .answering text rest htext hproc ?_ hstdin hunsent
    rw [hbyte] at hframe
    simpa using hframe
  | lost hproc hstdout hgot =>
    rw [hstdout] at hbyte
    exact nomatch hbyte
  | cut text htext hproc hframe hstdin hunsent =>
    refine .cut text htext hproc ?_ hstdin hunsent
    rw [hbyte] at hframe
    simpa using hframe

/-- When the host has a whole frame, it is the reply, and nothing is left behind it. -/
theorem talking_complete {limit : Nat} {unsent got payload : List UInt8}
    (h : Talking codec message link { unsent, got })
    (hcomplete : reading limit got = .complete payload) :
    Replies codec message payload ∧ link.Quiet := by
  cases h with
  | asking read hproc hframe hstdout hgot =>
    subst hgot
    exact nomatch hcomplete
  | answering text rest htext hproc hframe hstdin hunsent =>
    have hwithin : got <+: frame text := ⟨link.stdout ++ rest, by rw [← hframe, List.append_assoc]⟩
    obtain ⟨rfl, rfl⟩ := reading_eq_complete_within htext.length_lt hwithin hcomplete
    -- all of the reply is read, so none of it is in the pipe or still to be written
    have hnil : link.stdout ++ rest = [] := by
      rw [List.append_assoc] at hframe
      exact List.append_cancel_left (hframe.trans (List.append_nil _).symm)
    obtain ⟨hstdout, rfl⟩ := List.append_eq_nil_iff.mp hnil
    exact ⟨htext, hstdin, hstdout, .inl hproc⟩
  | lost hproc hstdout hgot =>
    subst hgot
    exact nomatch hcomplete
  | cut text htext hproc hframe hstdin hunsent =>
    have hwithin : got <+: frame text := (List.prefix_append got link.stdout).trans hframe
    obtain ⟨rfl, rfl⟩ := reading_eq_complete_within htext.length_lt hwithin hcomplete
    -- the worker died after its last byte
    have hstdout : link.stdout = [] := by
      have hlength : (frame payload ++ link.stdout).length ≤ (frame payload).length :=
        hframe.length_le
      rw [List.length_append] at hlength
      exact List.length_eq_zero_iff.mp (by omega)
    exact ⟨htext, hstdin, hstdout, .inr hproc⟩

/-- The first frame that is on its way is the reply. -/
theorem talking_first {limit : Nat} {payload : List UInt8} (h : Talking codec message link ex)
    (hfirst : (framesIn limit ex.got link.stdout)[0]? = some payload) :
    Replies codec message payload := by
  cases h with
  | asking read hproc hframe hstdout hgot =>
    rw [hstdout] at hfirst
    exact nomatch hfirst
  | answering text rest htext hproc hframe hstdin hunsent =>
    obtain rfl : payload = text := framesIn_within htext.length_lt ⟨rest, hframe⟩ hfirst
    exact htext
  | lost hproc hstdout hgot =>
    rw [hstdout] at hfirst
    exact nomatch hfirst
  | cut text htext hproc hframe hstdin hunsent =>
    obtain rfl : payload = text := framesIn_within htext.length_lt hframe hfirst
    exact htext

theorem talking_workerReceives {stdin : List UInt8} {proc : Loop}
    (hlength : message.length < 2 ^ 32) (h : Talking codec message link ex)
    (hbyte : link.stdin = byte :: stdin) (hrecv : Loop.recv codec link.proc byte = some proc) :
    Talking codec message { link with proc, stdin } ex := by
  cases h with
  | asking read hproc hframe hstdout hgot =>
    rw [hproc] at hrecv
    rw [hbyte] at hframe
    have hsplit : (read ++ [byte]) ++ stdin ++ ex.unsent = frame message := by simpa using hframe
    have hwithin : read ++ [byte] <+: frame message :=
      ⟨stdin ++ ex.unsent, by rw [← hsplit, List.append_assoc (read ++ [byte])]⟩
    simp only [Loop.recv] at hrecv
    split at hrecv
    · obtain rfl := Option.some.inj hrecv
      exact .asking _ rfl hsplit hstdout hgot
    · obtain rfl := Option.some.inj hrecv
      exact .lost rfl hstdout hgot
    · rename_i payload hcomplete
      obtain ⟨hread, rfl⟩ := reading_eq_complete_within hlength hwithin hcomplete
      obtain rfl := Option.some.inj hrecv
      -- the request is read to its last byte
      have hnil : stdin ++ ex.unsent = [] := by
        rw [hread, List.append_assoc] at hsplit
        exact List.append_cancel_left (hsplit.trans (List.append_nil _).symm)
      obtain ⟨rfl, hunsent⟩ := List.append_eq_nil_iff.mp hnil
      cases htree : processPayload codec payload with
      | none => exact .lost (by simp [Loop.reply, htree]) hstdout hgot
      | some tree =>
        by_cases hlong : 0x7fffffff < (codec.workerWrite tree).length
        · exact .lost (by simp [Loop.reply, htree, hlong]) hstdout hgot
        · have hreply : Loop.reply codec payload = .written (frame (codec.workerWrite tree)) := by
            simp [Loop.reply, htree, hlong, Loop.written, frame_ne_nil]
          refine .answering _ _ ⟨tree, htree, rfl, by omega⟩ hreply ?_ rfl hunsent
          show ex.got ++ link.stdout ++ _ = _
          rw [hgot, hstdout]
          rfl
  | answering text rest htext hproc hframe hstdin hunsent =>
    rw [hstdin] at hbyte
    exact nomatch hbyte
  | lost hproc hstdout hgot =>
    rw [hproc] at hrecv
    exact nomatch hrecv
  | cut text htext hproc hframe hstdin hunsent =>
    rw [hstdin] at hbyte
    exact nomatch hbyte

/-- Only a frame that is being written is sent. -/
theorem send_written {rest : List UInt8} {proc : Loop}
    (h : Loop.send (.written rest) byte = some proc) :
    ∃ rest', rest = byte :: rest' ∧ proc = .written rest' := by
  unfold Loop.written at h
  split at h
  · exact nomatch h
  · cases rest with
    | nil => exact absurd rfl ‹_›
    | cons next rest =>
      simp only [Loop.send, Option.ite_none_right_eq_some, Option.some.injEq] at h
      obtain ⟨rfl, rfl⟩ := h
      exact ⟨rest, rfl, rfl⟩

theorem talking_workerSends {proc : Loop} (h : Talking codec message link ex)
    (hsend : Loop.send link.proc byte = some proc) :
    Talking codec message { link with
      proc, stdout := link.stdout ++ [byte], written := link.written ++ [byte] } ex := by
  cases h with
  | asking read hproc hframe hstdout hgot =>
    rw [hproc] at hsend
    exact nomatch hsend
  | answering text rest htext hproc hframe hstdin hunsent =>
    rw [hproc] at hsend
    obtain ⟨rest', rfl, rfl⟩ := send_written hsend
    refine .answering text rest' htext rfl ?_ hstdin hunsent
    simpa using hframe
  | lost hproc hstdout hgot =>
    rw [hproc] at hsend
    exact nomatch hsend
  | cut text htext hproc hframe hstdin hunsent =>
    rw [hproc] at hsend
    exact nomatch hsend

theorem talking_workerCrashes (h : Talking codec message link ex) :
    Talking codec message { link with proc := .exited } ex := by
  cases h with
  | asking read hproc hframe hstdout hgot => exact .lost rfl hstdout hgot
  | answering text rest htext hproc hframe hstdin hunsent =>
    exact .cut text htext rfl ⟨rest, hframe⟩ hstdin hunsent
  | lost hproc hstdout hgot => exact .lost rfl hstdout hgot
  | cut text htext hproc hframe hstdin hunsent => exact .cut text htext rfl hframe hstdin hunsent

end Talking

end Rationale.Worker
