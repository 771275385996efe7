import Rationale.Library.Fallible
import Rationale.Worker.Supervisor

namespace Rationale.Worker

open Rationale.Library Rationale.Kernel Rationale.Wire

/-!
# The supervisor's books

Whatever the worker does, every command is answered at most once, under its own ticket, and handling
it takes no more starts and exchanges than the restart limit allows.

* `Books` — the tickets that are answered, in hand and queued;
* `Handling.Counted` — attempts, starts and exchanges of the command in hand;
* `Accounted` — both, in a state;
* `accounted_run` — they hold in every run;
* `Answered` — the responses among the answers suit the requests they answer;
* `answered_transition` — only the last byte of a result gives a response.
-/

/-- The command that a stage belongs to; the first handshake belongs to none. -/
def Stage.handling : Stage → Option Handling
  | .handshake handling => handling
  | .evaluation handling => some handling

def Phase.handling : Phase → Option Handling
  | .idle => none
  | .looping handling => some handling
  | .talking stage _ => stage.handling
  | .stopped => none

/-- Commands are answered, in hand or queued, each in one place only. -/
structure Books (config : Config) (current : Option Handling) (answers : List Answer)
    (submitted : List KernelRequest) (queue : List (Nat × KernelRequest)) : Prop where
  nodup : (answers.map Answer.ticket ++ current.toList.map Handling.ticket ++
    queue.map Prod.fst).Nodup
  answered : ∀ answer ∈ answers, answer.ticket < submitted.length
  inHand : ∀ handling ∈ current, submitted[handling.ticket]? = some handling.request
  queued : ∀ entry ∈ queue, submitted[entry.1]? = some entry.2
  spent : ∀ answer ∈ answers, answer.starts ≤ config.restartLimit.toNat + 1 ∧
    answer.exchanges ≤ config.restartLimit.toNat + 1

/-- The attempt counter has not wrapped around; up to `started` starts and `exchanged` exchanges
    belong to the current attempt. -/
structure Handling.Counted (config : Config) (handling : Handling) (started exchanged : Nat) :
    Prop where
  attempt_eq : handling.attempt.toNat = handling.retries
  retries_le : handling.retries ≤ config.restartLimit.toNat
  starts_le : handling.starts ≤ handling.retries + started
  exchanges_le : handling.exchanges ≤ handling.retries + exchanged

def Stage.Counted (config : Config) : Stage → Prop
  | .handshake none => True
  | .handshake (some handling) => handling.Counted config 1 0
  | .evaluation handling => handling.Counted config 1 1

/-- A loop that has a worker has started it in this attempt, or had it before; an exchange has one. -/
def Phase.Counted (config : Config) (held : Bool) : Phase → Prop
  | .looping handling => handling.Counted config held.toNat 0
  | .talking stage _ => held = true ∧ stage.Counted config
  | .idle => True
  | .stopped => True

variable {P : Type}

structure Accounted (config : Config) (s : State P) : Prop where
  books : Books config s.phase.handling s.answers s.submitted s.queue
  counted : s.phase.Counted config s.link.isSome

section Keep

variable {process : Process P} {codec : Codec} {config : Config} {s s' : State P}
  {handling : Handling} {stage : Stage}

theorem Handling.Counted.mono {started exchanged started' exchanged' : Nat}
    (h : handling.Counted config started exchanged) (hstarted : started ≤ started')
    (hexchanged : exchanged ≤ exchanged') : handling.Counted config started' exchanged' :=
  ⟨h.attempt_eq, h.retries_le, by have := h.starts_le; omega, by have := h.exchanges_le; omega⟩

/-- A command that is answered moves to the answered ones. -/
theorem accounted_answer {result : Except ProofUnavailable KernelResponse}
    (hbooks : Books config (some handling) s.answers s.submitted s.queue)
    (hcounted : handling.Counted config 1 1) : Accounted config (answer s handling result) := by
  have hlast : s.submitted[handling.ticket]? = some handling.request := hbooks.inHand _ rfl
  refine ⟨⟨?_, ?_, nofun, hbooks.queued, ?_⟩, trivial⟩
  · simpa [answer, Phase.handling] using hbooks.nodup
  · intro a ha
    rcases List.mem_append.mp ha with hold | hnew
    · exact hbooks.answered a hold
    · rw [List.mem_singleton.mp hnew]
      exact (List.getElem?_eq_some_iff.mp hlast).1
  · intro a ha
    rcases List.mem_append.mp ha with hold | hnew
    · exact hbooks.spent a hold
    · rw [List.mem_singleton.mp hnew]
      have hretries := hcounted.retries_le
      have hstarts := hcounted.starts_le
      have hexchanges := hcounted.exchanges_le
      show handling.starts ≤ _ ∧ handling.exchanges ≤ _
      omega

/-- The counter is raised only below the limit, so it stays in its eight bits. -/
theorem accounted_retry {error : ProofUnavailable}
    (hbooks : Books config (some handling) s.answers s.submitted s.queue)
    (hcounted : handling.Counted config 1 1) :
    Accounted config (retry config s handling error) := by
  unfold retry
  split
  · exact accounted_answer hbooks hcounted
  · rename_i hlimit
    have hbelow : handling.attempt.toNat < config.restartLimit.toNat := by
      rw [UInt8.le_iff_toNat_le] at hlimit
      omega
    have hattempt := hcounted.attempt_eq
    have hstarts := hcounted.starts_le
    have hexchanges := hcounted.exchanges_le
    have hmax := config.restartLimit.toNat_lt
    refine ⟨⟨hbooks.nodup, hbooks.answered, ?_, hbooks.queued, hbooks.spent⟩, ?_, ?_, ?_, ?_⟩
    · intro next hnext
      obtain rfl := Option.mem_some_iff.mp hnext
      exact hbooks.inHand handling rfl
    · show (handling.attempt + 1).toNat = handling.retries + 1
      rw [UInt8.toNat_add, show (1 : UInt8).toNat = 1 from rfl]
      omega
    · show handling.retries + 1 ≤ config.restartLimit.toNat
      omega
    · show handling.starts ≤ handling.retries + 1 + 0
      omega
    · show handling.exchanges ≤ handling.retries + 1 + 0
      omega

theorem accounted_startFails {error : ProofUnavailable} {current : Option Handling}
    (hbooks : Books config current s.answers s.submitted s.queue)
    (hcounted : (Stage.handshake current).Counted config) :
    Accounted config (startFails config s current error) := by
  cases current with
  | none => exact ⟨hbooks, trivial⟩
  | some handling => exact accounted_retry hbooks (hcounted.mono (le_refl 1) (by omega))

/-- Every end of an exchange answers the command, or goes on with it. -/
theorem accounted_finish {result : Except ProofUnavailable WorkerMessage}
    (hbooks : Books config stage.handling s.answers s.submitted s.queue)
    (hcounted : stage.Counted config) (hlink : s.link.isSome) :
    Accounted config (finish config s stage result) := by
  obtain ⟨s', hs', hfinished⟩ := exists_finished config s stage result
  rw [hs']
  cases hfinished with
  | launched => exact ⟨hbooks, trivial⟩
  | started handling =>
    refine ⟨hbooks, ?_⟩
    show handling.Counted config s.link.isSome.toNat 0
    rw [hlink]
    exact hcounted
  | startFails => exact accounted_startFails hbooks hcounted
  | responded => exact accounted_answer hbooks hcounted
  | refused => exact accounted_answer hbooks hcounted
  | discarded => exact accounted_answer hbooks hcounted
  | retried => exact accounted_retry hbooks hcounted

theorem accounted_exchange (hbooks : Books config stage.handling s.answers s.submitted s.queue)
    (hcounted : stage.Counted config) (hlink : s.link.isSome) :
    Accounted config (exchange codec config s stage) := by
  unfold exchange
  dsimp only
  split
  · exact accounted_finish hbooks hcounted hlink
  · exact ⟨hbooks, hlink, hcounted⟩

theorem accounted_receive {got : List UInt8}
    (hbooks : Books config stage.handling s.answers s.submitted s.queue)
    (hcounted : stage.Counted config) (hlink : s.link.isSome) :
    Accounted config (receive codec config s stage got) := by
  unfold receive
  split
  · exact ⟨hbooks, hlink, hcounted⟩
  · exact accounted_finish hbooks hcounted hlink
  · exact accounted_finish hbooks hcounted hlink

theorem accounted_timeOut (hbooks : Books config stage.handling s.answers s.submitted s.queue)
    (hcounted : stage.Counted config) : Accounted config (timeOut config s stage) := by
  cases stage with
  | handshake current => exact accounted_startFails hbooks hcounted
  | evaluation handling => exact accounted_retry hbooks hcounted

theorem Books.ticket_lt {current : Option Handling} {answers : List Answer}
    {submitted : List KernelRequest} {queue : List (Nat × KernelRequest)}
    (h : Books config current answers submitted queue) :
    ∀ ticket ∈ answers.map Answer.ticket ++ current.toList.map Handling.ticket ++
      queue.map Prod.fst, ticket < submitted.length := by
  intro ticket hmem
  rw [List.mem_append, List.mem_append] at hmem
  obtain (hanswer | hcurrent) | hqueue := hmem
  · obtain ⟨a, ha, rfl⟩ := List.mem_map.mp hanswer
    exact h.answered a ha
  · obtain ⟨handling, hhandling, rfl⟩ := List.mem_map.mp hcurrent
    exact (List.getElem?_eq_some_iff.mp (h.inHand handling (Option.mem_toList.mp hhandling))).1
  · obtain ⟨entry, hentry, rfl⟩ := List.mem_map.mp hqueue
    exact (List.getElem?_eq_some_iff.mp (h.queued entry hentry)).1

/-- A new request has a ticket of its own. -/
theorem Books.submit {current : Option Handling} {answers : List Answer}
    {submitted : List KernelRequest} {queue : List (Nat × KernelRequest)}
    (h : Books config current answers submitted queue) (request : KernelRequest) :
    Books config current answers (submitted ++ [request])
      (queue ++ [(submitted.length, request)]) := by
  have hold : ∀ {ticket : Nat} {q : KernelRequest}, submitted[ticket]? = some q →
      (submitted ++ [request])[ticket]? = some q := by
    intro ticket q hticket
    rw [List.getElem?_append_left (List.getElem?_eq_some_iff.mp hticket).1]
    exact hticket
  refine ⟨?_, ?_, fun handling hcurrent => hold (h.inHand handling hcurrent), ?_, h.spent⟩
  · rw [List.map_append, ← List.append_assoc, List.nodup_append]
    refine ⟨h.nodup, List.nodup_singleton _, fun ticket hticket new hnew heq => ?_⟩
    have hlt := h.ticket_lt ticket hticket
    rw [heq, List.mem_singleton.mp hnew] at hlt
    exact lt_irrefl _ hlt
  · intro answer hanswer
    rw [List.length_append]
    exact Nat.lt_add_right _ (h.answered answer hanswer)
  · intro entry hentry
    rcases List.mem_append.mp hentry with hqueued | hnew
    · exact hold (h.queued entry hqueued)
    · rw [List.mem_singleton.mp hnew]
      exact List.getElem?_concat_length

/-- Counting does not touch the books. -/
theorem Books.recount {handling' : Handling} {answers : List Answer}
    {submitted : List KernelRequest} {queue : List (Nat × KernelRequest)}
    (h : Books config (some handling) answers submitted queue)
    (hticket : handling'.ticket = handling.ticket) (hrequest : handling'.request = handling.request) :
    Books config (some handling') answers submitted queue := by
  refine ⟨?_, h.answered, ?_, h.queued, h.spent⟩
  · have hnodup := h.nodup
    simp only [Option.toList_some, List.map_cons, List.map_nil] at hnodup ⊢
    rwa [hticket]
  · intro current hcurrent
    obtain rfl := Option.mem_some_iff.mp hcurrent
    rw [hticket, hrequest]
    exact h.inHand handling rfl

theorem accounted_transition (h : Transition process codec config s s')
    (hs : Accounted config s) : Accounted config s' := by
  obtain ⟨hbooks, hcounted⟩ := hs
  cases h with
  | submit request hphase => exact ⟨hbooks.submit request, hcounted⟩
  | cancel ticket => exact ⟨hbooks, hcounted⟩
  | take hphase hqueue =>
    -- the ticket moves from the queue into the hand, with all counters at zero
    rw [hphase, hqueue] at hbooks
    refine ⟨⟨?_, hbooks.answered, ?_, ?_, hbooks.spent⟩, ?_, ?_, ?_, ?_⟩
    · simpa [Phase.handling, Handling.begin] using hbooks.nodup
    · intro handling hcurrent
      obtain rfl := Option.mem_some_iff.mp hcurrent
      exact hbooks.queued _ List.mem_cons_self
    · exact fun entry hentry => hbooks.queued entry (List.mem_cons_of_mem _ hentry)
    · rfl
    all_goals exact Nat.zero_le _
  | spawn hphase hlink =>
    rw [hphase] at hbooks hcounted
    rw [hlink] at hcounted
    apply accounted_exchange
    · exact hbooks.recount rfl rfl
    · exact ⟨hcounted.attempt_eq, hcounted.retries_le, Nat.succ_le_succ hcounted.starts_le,
        hcounted.exchanges_le⟩
    · rfl
  | spawnFails detail hphase hlink =>
    rw [hphase] at hbooks hcounted
    rw [hlink] at hcounted
    apply accounted_retry
    · exact hbooks.recount rfl rfl
    · exact ⟨hcounted.attempt_eq, hcounted.retries_le, Nat.succ_le_succ hcounted.starts_le,
        Nat.le_succ_of_le hcounted.exchanges_le⟩
  | ask hphase hlink =>
    rw [hphase] at hbooks hcounted
    rw [hlink] at hcounted
    apply accounted_exchange
    · exact hbooks.recount rfl rfl
    · exact ⟨hcounted.attempt_eq, hcounted.retries_le, hcounted.starts_le,
        Nat.succ_le_succ hcounted.exchanges_le⟩
    · rfl
  | hostSends hphase hlink =>
    rw [hphase] at hbooks hcounted
    exact ⟨hbooks, rfl, hcounted.2⟩
  | hostReceives hphase hlink hstdout =>
    rw [hphase] at hbooks hcounted
    exact accounted_receive hbooks hcounted.2 rfl
  | timesOut hphase =>
    rw [hphase] at hbooks hcounted
    exact accounted_timeOut hbooks hcounted.2
  | disconnects detail hphase =>
    rw [hphase] at hbooks hcounted
    exact accounted_finish hbooks hcounted.2 hcounted.1
  | workerReceives hlink hstdin hrecv =>
    rw [hlink] at hcounted
    exact ⟨hbooks, hcounted⟩
  | workerSends hlink hsend =>
    rw [hlink] at hcounted
    exact ⟨hbooks, hcounted⟩
  | workerCrashes hlink =>
    rw [hlink] at hcounted
    exact ⟨hbooks, hcounted⟩
  | shutDown hphase hqueue =>
    rw [hphase] at hbooks
    exact ⟨hbooks, trivial⟩

theorem Handling.Counted.bounds {started exchanged : Nat}
    (h : handling.Counted config started exchanged) (hstarted : started ≤ 1)
    (hexchanged : exchanged ≤ 1) : handling.attempt.toNat = handling.retries ∧
      handling.starts ≤ config.restartLimit.toNat + 1 ∧
      handling.exchanges ≤ config.restartLimit.toNat + 1 := by
  have hretries := h.retries_le
  have hstarts := h.starts_le
  have hexchanges := h.exchanges_le
  exact ⟨h.attempt_eq, by omega, by omega⟩

/-- The command in hand stays within the restart limit. -/
theorem Accounted.bounds (h : Accounted config s) : ∀ handling ∈ s.phase.handling,
    handling.attempt.toNat = handling.retries ∧
      handling.starts ≤ config.restartLimit.toNat + 1 ∧
      handling.exchanges ≤ config.restartLimit.toNat + 1 := by
  intro handling hhandling
  have hcounted := h.counted
  cases hphase : s.phase with
  | idle => rw [hphase] at hhandling; exact nomatch hhandling
  | stopped => rw [hphase] at hhandling; exact nomatch hhandling
  | looping current =>
    rw [hphase] at hhandling hcounted
    obtain rfl := Option.mem_some_iff.mp hhandling
    exact Handling.Counted.bounds hcounted (Bool.toNat_le _) (Nat.zero_le 1)
  | talking stage ex =>
    rw [hphase] at hhandling hcounted
    obtain ⟨-, hcounted⟩ := hcounted
    cases stage with
    | handshake current =>
      obtain rfl : current = some handling := hhandling
      exact Handling.Counted.bounds hcounted (le_refl 1) (Nat.zero_le 1)
    | evaluation current =>
      obtain rfl := Option.mem_some_iff.mp hhandling
      exact Handling.Counted.bounds hcounted (le_refl 1) (le_refl 1)

/-- An evaluation is one of a request that was submitted. -/
theorem Accounted.evaluated {ex : Exchange} (h : Accounted config s)
    (hphase : s.phase = .talking (.evaluation handling) ex) :
    s.submitted[handling.ticket]? = some handling.request := by
  apply h.books.inHand
  rw [hphase]
  rfl

theorem accounted_launch : Accounted config (launch process codec config) := by
  apply accounted_exchange
  · exact ⟨List.nodup_nil, nofun, nofun, nofun, nofun⟩
  · trivial
  · rfl

/-- **The books are kept in every run.** -/
theorem accounted_run (hrun : Run process codec config s) : Accounted config s :=
  hrun.invariant accounted_launch (fun _ _ h => accounted_transition h)

end Keep

/-! ### Responses -/

/-- Every response among the answers is good for the request that it answers. -/
def Answered (good : KernelResponse → KernelRequest → Prop) (s : State P) : Prop :=
  ∀ a ∈ s.answers, ∀ response, a.result = .ok response →
    ∃ request, s.submitted[a.ticket]? = some request ∧ good response request

section Answers

variable {process : Process P} {codec : Codec} {config : Config} {s s' : State P}
  {handling : Handling} {stage : Stage} {good : KernelResponse → KernelRequest → Prop}

theorem answered_answer {result : Except ProofUnavailable KernelResponse} (hs : Answered good s)
    (hrequest : s.submitted[handling.ticket]? = some handling.request)
    (hresult : ∀ response, result = .ok response → good response handling.request) :
    Answered good (answer s handling result) := by
  intro a ha response hresponse
  rcases List.mem_append.mp ha with hold | hnew
  · exact hs a hold response hresponse
  · rw [List.mem_singleton.mp hnew] at hresponse ⊢
    exact ⟨handling.request, hrequest, hresult response hresponse⟩

theorem answered_retry {error : ProofUnavailable} (hs : Answered good s)
    (hrequest : s.submitted[handling.ticket]? = some handling.request) :
    Answered good (retry config s handling error) := by
  unfold retry
  split
  · exact answered_answer hs hrequest nofun
  · exact hs

theorem answered_startFails {current : Option Handling} {error : ProofUnavailable}
    (hs : Answered good s)
    (hrequest : ∀ handling ∈ current, s.submitted[handling.ticket]? = some handling.request) :
    Answered good (startFails config s current error) := by
  cases current with
  | none => exact hs
  | some handling => exact answered_retry hs (hrequest handling rfl)

/-- Only a result gives a response. -/
theorem answered_finish {result : Except ProofUnavailable WorkerMessage} (hs : Answered good s)
    (hrequest : ∀ handling ∈ stage.handling, s.submitted[handling.ticket]? = some handling.request)
    (hresult : ∀ handling response, stage = .evaluation handling → result = .ok (.result response) →
      good response handling.request) :
    Answered good (finish config s stage result) := by
  obtain ⟨s', hs', hfinished⟩ := exists_finished config s stage result
  rw [hs']
  cases hfinished with
  | launched => exact hs
  | started => exact hs
  | startFails => exact answered_startFails hs hrequest
  | responded handling response =>
    apply answered_answer hs (hrequest handling rfl)
    intro response' heq
    obtain rfl := Except.ok.inj heq
    exact hresult handling response rfl rfl
  | refused handling message error => exact answered_answer hs (hrequest handling rfl) nofun
  | discarded handling error =>
    exact answered_answer (s := terminate s) hs (hrequest handling rfl) nofun
  | retried handling error => exact answered_retry hs (hrequest handling rfl)

theorem answered_exchange (hs : Answered good s)
    (hrequest : ∀ handling ∈ stage.handling,
      s.submitted[handling.ticket]? = some handling.request) :
    Answered good (exchange codec config s stage) := by
  unfold exchange
  dsimp only
  split
  · exact answered_finish hs hrequest nofun
  · exact hs

theorem answered_timeOut (hs : Answered good s)
    (hrequest : ∀ handling ∈ stage.handling,
      s.submitted[handling.ticket]? = some handling.request) :
    Answered good (timeOut config s stage) := by
  cases stage with
  | handshake current => exact answered_startFails hs hrequest
  | evaluation handling => exact answered_retry hs (hrequest handling rfl)

theorem answered_receive {got : List UInt8} (hs : Answered good s)
    (hrequest : ∀ handling ∈ stage.handling, s.submitted[handling.ticket]? = some handling.request)
    (hresult : ∀ handling payload response, stage = .evaluation handling →
      reading config.maxPayload got = .complete payload →
      codec.hostRead payload = .ok (.result response) → good response handling.request) :
    Answered good (receive codec config s stage got) := by
  unfold receive
  split
  · exact hs
  · exact answered_finish hs hrequest nofun
  · rename_i payload hcomplete
    apply answered_finish hs hrequest
    intro handling response hstage hmessage
    rw [readMessage, mapError_eq_ok] at hmessage
    exact hresult handling payload response hstage hcomplete hmessage

/-- **Responses** come from the last byte of a frame that reads as a result. -/
theorem answered_transition (h : Transition process codec config s s')
    (haccounted : Accounted config s)
    (hresult : ∀ handling got link byte stdout payload response,
      s.phase = .talking (.evaluation handling) { unsent := [], got } → s.link = some link →
      link.stdout = byte :: stdout →
      reading config.maxPayload (got ++ [byte]) = .complete payload →
      codec.hostRead payload = .ok (.result response) → good response handling.request)
    (hs : Answered good s) : Answered good s' := by
  have hrequest := haccounted.books.inHand
  cases h with
  | submit request hphase =>
    intro a ha response hresponse
    -- tickets are positions, so an earlier ticket still names its request
    obtain ⟨request', hsubmitted, hgood⟩ := hs a ha response hresponse
    refine ⟨request', ?_, hgood⟩
    show (s.submitted ++ [request])[a.ticket]? = some request'
    rw [List.getElem?_append_left (List.getElem?_eq_some_iff.mp hsubmitted).1]
    exact hsubmitted
  | spawn hphase hlink =>
    rw [hphase] at hrequest
    have hmine := hrequest _ rfl
    apply answered_exchange
    · exact hs
    · intro next hnext
      obtain rfl := Option.mem_some_iff.mp hnext
      exact hmine
  | spawnFails detail hphase hlink =>
    rw [hphase] at hrequest
    have hmine := hrequest _ rfl
    exact answered_retry hs hmine
  | ask hphase hlink =>
    rw [hphase] at hrequest
    have hmine := hrequest _ rfl
    apply answered_exchange
    · exact hs
    · intro next hnext
      obtain rfl := Option.mem_some_iff.mp hnext
      exact hmine
  | hostReceives hphase hlink hstdout =>
    rw [hphase] at hrequest
    apply answered_receive
    · exact hs
    · exact hrequest
    · -- the only step that can add a response
      rintro handling payload response rfl hcomplete hread
      exact hresult handling _ _ _ _ payload response hphase hlink hstdout hcomplete hread
  | timesOut hphase =>
    rw [hphase] at hrequest
    exact answered_timeOut hs hrequest
  | disconnects detail hphase =>
    rw [hphase] at hrequest
    exact answered_finish hs hrequest nofun
  | _ => exact hs

theorem answered_launch : Answered good (launch process codec config) :=
  answered_exchange nofun nofun

end Answers

end Rationale.Worker
