import Rationale.Engine.CandidateStage
import Rationale.Engine.ClientProgress
import Rationale.Engine.Plan

namespace Rationale.Engine

open Std Rationale.Library Rationale.Git Rationale.GitHub Rationale.Store

/-!
# What clients observe of each other

Whatever the schedule, whichever store operations fail and whoever is killed:

* `publications_serial` — the database is that of the reported publications, one after the other, and
  each of them reads back in full;
* `answers_at_one_moment` — a question is answered for the one database that was committed at one of
  its turns;
* `sync_at_its_moments` — so is what a synchronization starts from, and how it ends.
-/

variable {hash : String → String} {n : Nat} {site : Site n}

/-! ### Publications -/

/-- The publication that the client reports was made. -/
def Performs (hash : String → String) (client : Client) (db db' : Database) : Prop :=
  ∃ p, client.Reports hash p ∧ p.publishNew hash db = .ok db'

/-- The client has reported some publication. -/
def Client.Reported (hash : String → String) (client : Client) : Prop := ∃ p, client.Reports hash p

/-- The publications that were reported, in the order in which they were made. -/
structure Serialized (hash : String → String) (start : Database) {n : Nat} (final : Site n)
    (order : List (Fin n)) : Prop where
  once : order.Nodup
  reported : ∀ i, i ∈ order ↔ (final.locals i).Reported hash
  serial : Pool.Serial (fun i => Performs hash (final.locals i)) start order final.shared
  /-- What was committed before is still there. -/
  kept : Later start final.shared
  /-- Every reported snapshot reads back as what its client published. -/
  readable : ∀ i p, (final.locals i).Reports hash p →
    snapshotSlice final.shared (p.snapshotId hash) = p.slice hash
  /-- There are no other snapshots. -/
  snapshots : ∀ id, id ∈ final.shared.snapshots ↔
    id ∈ start.snapshots ∨ ∃ i p, (final.locals i).Reports hash p ∧ p.snapshotId hash = id
  /-- The current snapshot is that of the last publication. -/
  current : ∀ i p, order.getLast? = some i → (final.locals i).Reports hash p →
    final.shared.current = some (p.snapshotId hash)
  unchanged : order = [] → final.shared = start

theorem Client.Reports.eq {client : Client} {p q : Publication} (hp : client.Reports hash p)
    (hq : client.Reports hash q) : p = q :=
  (Client.publishing.inj (hp.symm.trans hq)).1

theorem Client.Reports.isOver {client : Client} {p : Publication} (h : client.Reports hash p) :
    client.isOver = true := by
  rw [h]
  rfl

/-- A call that is over takes no more steps. -/
theorem turn_of_isOver {client : Client} {locked : Bool} {db : Database} (h : client.isOver = true)
    (turn : Turn) : client.turn hash locked db turn = (db, client) :=
  if_pos h

section Serial

variable {clients : Fin n → Client} {start db : Database} {order : List (Fin n)}

/-- A series of publications from a database. -/
abbrev Publications (hash : String → String) (clients : Fin n → Client) (start : Database)
    (order : List (Fin n)) (db : Database) : Prop :=
  Pool.Serial (fun i => Performs hash (clients i)) start order db

theorem serial_reachable (hstart : Reachable start) (h : Publications hash clients start order db) :
    Reachable db := by
  induction h with
  | nil => exact hstart
  | snoc _ hperforms ih =>
    obtain ⟨p, -, hok⟩ := hperforms
    exact reachable_publishCandidate ih hok

theorem serial_later (h : Publications hash clients start order db) : Later start db := by
  induction h with
  | nil => exact Later.refl start
  | snoc _ hperforms ih =>
    obtain ⟨p, -, hok⟩ := hperforms
    exact ih.trans (later_publishNew hok)

/-- A snapshot that was just published. -/
theorem readable_publishNew {p : Publication} {db' : Database} (h : p.publishNew hash db = .ok db') :
    snapshotSlice db' (p.snapshotId hash) = p.slice hash := by
  obtain ⟨-, hconsistent, rfl⟩ := publishCandidate_eq_ok.mp h
  exact snapshotSlice_withEvidence hconsistent

theorem snapshots_publishNew {p : Publication} {db' : Database} (h : p.publishNew hash db = .ok db')
    (id : String) : id ∈ db'.snapshots ↔ id ∈ db.snapshots ∨ p.snapshotId hash = id := by
  obtain ⟨-, -, rfl⟩ := publishCandidate_eq_ok.mp h
  show id ∈ db.snapshots.insert (p.snapshotId hash) _ ↔ _
  rw [ExtTreeMap.mem_insert, Std.compare_eq_iff_eq]
  exact or_comm

theorem current_publishNew {p : Publication} {db' : Database} (h : p.publishNew hash db = .ok db') :
    db'.current = some (p.snapshotId hash) := by
  obtain ⟨-, -, rfl⟩ := publishCandidate_eq_ok.mp h
  rfl

/-- The snapshots after a series are those before it and the published ones. -/
theorem serial_snapshots (h : Publications hash clients start order db) (id : String) :
    id ∈ db.snapshots ↔ id ∈ start.snapshots ∨
      ∃ i ∈ order, ∃ p, (clients i).Reports hash p ∧ p.snapshotId hash = id := by
  induction h with
  | nil => simp
  | @snoc order t u j _ hperforms ih =>
    obtain ⟨q, hq, hok⟩ := hperforms
    rw [snapshots_publishNew hok, ih, or_assoc]
    refine or_congr_right ?_
    constructor
    · rintro (⟨i, hi, p, hp⟩ | heq)
      · exact ⟨i, List.mem_append_left _ hi, p, hp⟩
      · exact ⟨j, by simp, q, hq, heq⟩
    · rintro ⟨i, hi, p, hp, heq⟩
      rcases List.mem_append.mp hi with hold | hnew
      · exact Or.inl ⟨i, hold, p, hp, heq⟩
      · rw [List.mem_singleton] at hnew
        subst hnew
        obtain rfl := hp.eq hq
        exact Or.inr heq

/-- **Every publication of a series** reads back after it as what was published. -/
theorem serial_readable (hstart : Reachable start) (h : Publications hash clients start order db) :
    ∀ i ∈ order, ∀ p, (clients i).Reports hash p →
      snapshotSlice db (p.snapshotId hash) = p.slice hash := by
  induction h with
  | nil => exact fun i hi => absurd hi List.not_mem_nil
  | @snoc order t u j hseries hperforms ih =>
    intro i hi p hp
    have hreachable := serial_reachable hstart hseries
    obtain ⟨q, hq, hok⟩ := hperforms
    rcases List.mem_append.mp hi with hold | hnew
    · -- an older snapshot was there, and is not changed
      have hslice := ih i hold p hp
      have hmem : p.snapshotId hash ∈ t.snapshots :=
        (serial_snapshots hseries _).mpr (Or.inr ⟨i, hold, p, hp, rfl⟩)
      rw [(later_publishNew hok).snapshotSlice_eq hreachable.valid hmem]
      exact hslice
    · rw [List.mem_singleton] at hnew
      subst hnew
      obtain rfl := hp.eq hq
      exact readable_publishNew hok

end Serial

/-! ### What a call has read -/

section Reads

variable {α : Type} {start query : StoreQuery α} {db later : Database} {locked : Bool}

/-- The query has read nothing yet. -/
structure NothingRead (start query : StoreQuery α) : Prop where
  readsOnce : query.ReadsOnce Later Valid
  eval_eq : ∀ db, query.eval db = start.eval db

/-- The query has read this database, or was failed by SQLite. -/
def HasRead (start : StoreQuery α) (db : Database) (query : StoreQuery α) : Prop :=
  (query.Settled Later db ∧ query.eval db = start.eval db) ∨
    ∃ detail, query = .done (.error (.store (.database detail)))

theorem NothingRead.advance (h : NothingRead start query) (hv : Valid db) :
    NothingRead start (query.advance locked db) ∨ HasRead start db (query.advance locked db) := by
  rcases h.readsOnce.advance hv with ⟨hreads, heval⟩ | ⟨hsettled, heval⟩
  · exact Or.inl ⟨hreads, fun db => (heval db).trans (h.eval_eq db)⟩
  · exact Or.inr (Or.inl ⟨hsettled, heval.trans (h.eval_eq db)⟩)

theorem HasRead.advance (h : HasRead start db query) (hlater : Later db later) :
    HasRead start db (query.advance locked later) := by
  rcases h with ⟨hsettled, heval⟩ | ⟨detail, rfl⟩
  · obtain ⟨hsettled, hsame⟩ := hsettled.advance hlater
    exact Or.inl ⟨hsettled, hsame.trans heval⟩
  · exact Or.inr ⟨detail, rfl⟩

end Reads

/-- The client has called this command, and read nothing yet. -/
inductive IsFree : Command → Client → Prop where
  | called (command : Command) : IsFree command (.called command)
  | preparing {prepare query : StoreQuery Publication} (h : NothingRead prepare query) :
      IsFree (.sync prepare) (.preparing query)
  | prepared {prepare : StoreQuery Publication} {p : Publication} (phase : Phase)
      (h : ∀ db, prepare.eval db = .ok p) : IsFree (.sync prepare) (.publishing p phase)
  | asking {question query : StoreQuery Reply} (h : NothingRead question query) :
      IsFree (.ask question) (.asking query)

/-- The client has called this command, and read this database for it. -/
inductive IsPinned (db : Database) : Command → Client → Prop where
  | preparing {prepare query : StoreQuery Publication} (h : HasRead prepare db query) :
      IsPinned db (.sync prepare) (.preparing query)
  | prepared {prepare : StoreQuery Publication} {p : Publication} (phase : Phase)
      (h : prepare.eval db = .ok p) : IsPinned db (.sync prepare) (.publishing p phase)
  | asking {question query : StoreQuery Reply} (h : HasRead question db query) :
      IsPinned db (.ask question) (.asking query)
  | killed (command : Command) : IsPinned db command .killed

/-- What the command reads, it reads once. -/
def Command.ReadsOnce : Command → Prop
  | .sync prepare => prepare.ReadsOnce Later Valid
  | .ask question => question.ReadsOnce Later Valid

section Reads

variable {locked : Bool} {db later : Database} {client : Client} {next : Database × Client}
  {command : Command}

theorem nothingRead_self {α : Type} {query : StoreQuery α} (h : query.ReadsOnce Later Valid) :
    NothingRead query query :=
  ⟨h, fun _ => rfl⟩

/-- A query that is over without reading has the same result on every database. -/
theorem NothingRead.eval_start {α : Type} {start : StoreQuery α} {result : Except EngineError α}
    (h : NothingRead start (.done result)) (db : Database) : start.eval db = result :=
  (h.eval_eq db).symm

theorem HasRead.eval_start {α : Type} {start : StoreQuery α} {result : Except EngineError α}
    (h : HasRead start db (.done result)) :
    start.eval db = result ∨ ∃ detail, result = .error (.store (.database detail)) := by
  rcases h with ⟨-, heval⟩ | ⟨detail, heq⟩
  · exact Or.inl heval.symm
  · exact Or.inr ⟨detail, Query.done.inj heq⟩

/-- **Before the first read**: a turn reads nothing, or the committed database. -/
theorem IsFree.step (hfree : IsFree command client) (honce : command.ReadsOnce) (hv : Valid db)
    (h : ClientStep hash locked db client next) :
    IsFree command next.2 ∨ IsPinned db command next.2 := by
  cases h with
  | stays _ _ => exact Or.inl hfree
  | isKilled _ => exact Or.inr (.killed command)
  | fails _ detail =>
    cases hfree with
    | called _ =>
      cases command with
      | sync prepare => exact Or.inr (.preparing (Or.inr ⟨detail, rfl⟩))
      | ask question => exact Or.inr (.asking (Or.inr ⟨detail, rfl⟩))
    | preparing _ => exact Or.inr (.preparing (Or.inr ⟨detail, rfl⟩))
    | prepared _ heval => exact Or.inl (.prepared _ heval)
    | asking _ => exact Or.inr (.asking (Or.inr ⟨detail, rfl⟩))
  | syncs prepare =>
    cases hfree
    exact Or.inl (.preparing (nothingRead_self honce))
  | asks question =>
    cases hfree
    exact Or.inl (.asking (nothingRead_self honce))
  | prepared p =>
    cases hfree with
    | preparing hnothing => exact Or.inl (.prepared _ hnothing.eval_start)
  | prepares query =>
    cases hfree with
    | preparing hnothing => exact (hnothing.advance hv).imp IsFree.preparing IsPinned.preparing
  | publishes _ =>
    cases hfree with
    | prepared _ heval => exact Or.inl (.prepared _ heval)
  | reads query =>
    cases hfree with
    | asking hnothing => exact (hnothing.advance hv).imp IsFree.asking IsPinned.asking

/-- **After the first read** no turn changes what was read. -/
theorem IsPinned.step (hpinned : IsPinned db command client) (hlater : Later db later)
    (h : ClientStep hash locked later client next) : IsPinned db command next.2 := by
  cases h with
  | stays _ _ => exact hpinned
  | isKilled _ => exact .killed command
  | fails _ detail =>
    cases hpinned with
    | preparing _ => exact .preparing (Or.inr ⟨detail, rfl⟩)
    | prepared _ heval => exact .prepared _ heval
    | asking _ => exact .asking (Or.inr ⟨detail, rfl⟩)
    | killed _ => exact .killed command
  | syncs prepare => cases hpinned
  | asks question => cases hpinned
  | prepared p =>
    cases hpinned with
    | preparing hread =>
      rcases hread.eval_start with heval | ⟨detail, hfault⟩
      · exact .prepared _ heval
      · cases hfault
  | prepares query =>
    cases hpinned with
    | preparing hread => exact .preparing (hread.advance hlater)
  | publishes _ =>
    cases hpinned with
    | prepared _ heval => exact .prepared _ heval
  | reads query =>
    cases hpinned with
    | asking hread => exact .asking (hread.advance hlater)

/-- **What a call has read** is the database that was committed at one of its turns. -/
theorem isFree_or_isPinned (hvalid : SiteValid hash site) {i : Fin n}
    (hi : site.locals i = .called command) (honce : command.ReadsOnce)
    (schedule : List (Fin n × Turn)) :
    IsFree command ((site.run (siteMove hash) schedule).locals i) ∨
      ∃ before turn after, schedule = before ++ (i, turn) :: after ∧
        IsPinned (site.run (siteMove hash) before).shared command
          ((site.run (siteMove hash) schedule).locals i) := by
  have hmoment := @Pool.exists_moment (Fin n) Turn Database Client _ (siteMove hash) (SiteValid hash)
    site Later (fun j client => j = i → IsFree command client)
    (fun j db client => j = i → IsPinned db command client)
    (fun _ turn hs => hs.step turn) (fun h h' => h.trans h')
    (fun s j t hs => (hs.effect j t).later) ?_ ?_ hvalid ?_ schedule i
  · rcases hmoment with hfree | ⟨before, turn, after, heq, -, hpinned⟩
    · exact Or.inl (hfree rfl)
    · exact Or.inr ⟨before, turn, after, heq, hpinned rfl⟩
  · intro s j t hs hfree
    by_cases hj : j = i
    · rcases (hfree hj).step honce hs.reachable.valid (clientStep_siteMove hash s j t) with h | h
      · exact Or.inl (fun _ => h)
      · exact Or.inr (fun _ => h)
    · exact Or.inl (fun heq => absurd heq hj)
  · intro s j t db _ hlater hpinned hj
    exact (hpinned hj).step hlater (clientStep_siteMove hash s j t)
  · rintro j rfl
    rw [hi]
    exact .called command

end Reads

/-! ### Answers -/

section Answers

variable {i : Fin n} {schedule : List (Fin n × Turn)}

/-- A client that is no longer about to call has had a turn. -/
theorem exists_turn_of_called (hash : String → String) {command : Command}
    (hi : site.locals i = .called command)
    (h : (site.run (siteMove hash) schedule).locals i ≠ .called command) :
    ∃ before turn after, schedule = before ++ (i, turn) :: after := by
  rw [← hi] at h
  obtain ⟨before, turn, after, heq, -⟩ := Pool.exists_turn h
  exact ⟨before, turn, after, heq⟩

/-- **Every answer** is that of the database which was committed at one of the call's turns. -/
theorem answer_at_moment (hvalid : SiteValid hash site) {question : StoreQuery Reply}
    (honce : question.ReadsOnce Later Valid) (hi : site.locals i = .called (.ask question))
    {answer : Except EngineError Reply}
    (hanswer : (site.run (siteMove hash) schedule).locals i = .asking (.done answer)) :
    (∃ detail, answer = .error (.store (.database detail))) ∨
      ∃ before turn after, schedule = before ++ (i, turn) :: after ∧
        answer = question.eval (site.run (siteMove hash) before).shared := by
  rcases isFree_or_isPinned hvalid hi honce schedule with hfree | ⟨before, turn, after, heq, hpinned⟩
  · -- nothing was read, so the answer is that of any database
    have hchanged : (site.run (siteMove hash) schedule).locals i ≠ .called (.ask question) := by
      rw [hanswer]
      intro h
      cases h
    obtain ⟨before, turn, after, heq⟩ := exists_turn_of_called hash hi hchanged
    rw [hanswer] at hfree
    cases hfree with
    | asking hnothing => exact Or.inr ⟨before, turn, after, heq, (hnothing.eval_start _).symm⟩
  · rw [hanswer] at hpinned
    cases hpinned with
    | asking hread =>
      rcases hread.eval_start with heval | hfault
      · exact Or.inr ⟨before, turn, after, heq, heval.symm⟩
      · exact Or.inl hfault

/-- **How a publication ends** is decided on the database that was committed at one of its turns. -/
theorem outcome_at_moment (hvalid : SiteValid hash site) {prepare : StoreQuery Publication}
    (hi : site.locals i = .called (.sync prepare)) {p : Publication}
    {result : Except EngineError SyncReport}
    (hresult : (site.run (siteMove hash) schedule).locals i = .publishing p (.done result)) :
    ∃ before turn after phase, schedule = before ++ (i, turn) :: after ∧
      (site.run (siteMove hash) before).locals i = .publishing p phase ∧
        ((∃ detail, result = .error (.store (.database detail))) ∨
          Outcome hash p (site.run (siteMove hash) before).shared result) := by
  have hchanged : (site.run (siteMove hash) schedule).locals i ≠ site.locals i := by
    rw [hresult, hi]
    intro h
    cases h
  obtain ⟨before, turn, after, heq, hold, hnew⟩ := Pool.exists_turn hchanged
  have hbefore := hvalid.run before
  rw [hresult] at hold hnew
  generalize hclient : (site.run (siteMove hash) before).locals i = client at hold
  -- the turn that made the result
  have hstep := clientStep_siteMove hash (site.run (siteMove hash) before) i turn
  have hwrites := hbefore.writes i
  rw [hclient] at hstep hwrites
  generalize siteMove hash (site.run (siteMove hash) before) i turn = next at hstep hnew
  generalize hdb : (site.run (siteMove hash) before).shared = db at hstep hwrites
  cases hstep with
  | stays _ _ => exact absurd hnew hold
  | isKilled _ => cases hnew
  | fails _ detail =>
    cases client with
    | publishing q phase =>
      obtain ⟨rfl, hdone⟩ := Client.publishing.inj hnew
      obtain rfl := Phase.done.inj hdone
      exact ⟨before, turn, after, phase, heq, hclient, Or.inl ⟨detail, rfl⟩⟩
    | called command => cases command <;> cases hnew
    | preparing query => cases hnew
    | asking query => cases hnew
    | killed => cases hnew
  | syncs _ => cases hnew
  | asks _ => cases hnew
  | prepared _ => cases hnew
  | prepares _ => cases hnew
  | reads _ => cases hnew
  | @publishes q phase next hphase =>
    obtain ⟨rfl, hdone⟩ := Client.publishing.inj hnew
    have hwrites := hwrites q phase rfl
    refine ⟨before, turn, after, phase, heq, hclient, Or.inr ?_⟩
    rw [hdb]
    cases hphase with
    | waits _ _ =>
      obtain rfl : phase = .done result := hdone
      exact absurd rfl hold
    | opens => cases hdone
    | reuses hcurrent =>
      obtain rfl := Phase.done.inj hdone
      exact .reused hcurrent
    | isOutdated => cases hdone
    | begins _ _ => cases hdone
    | isRejected hbegin =>
      obtain rfl := Phase.done.inj hdone
      refine .rejected ?_
      show publishNew hash q.evidence q.sources db = _
      rw [publishNew_eq_begin]
      exact congrArg (· >>= _) hbegin
    | executes _ => cases hdone
    | fails herror =>
      obtain rfl := Phase.done.inj hdone
      exact .rejected (hwrites.publishNew_error herror)
    | publishes hok =>
      obtain rfl := Phase.done.inj hdone
      exact .published (publishNew_of_publish hwrites hok)
    | isNotPublished herror =>
      obtain rfl := Phase.done.inj hdone
      exact .rejected (hwrites.publishNew_eq.trans herror)

end Answers

/-! ### The engine's calls -/

section Calls

variable {timestamp : Int → Option String} {observedSecond : String → Option Int}
  {resolver : Resolver} {supervisor : KernelRequest → Except EngineError KernelResponse}
  {parsers : Docs.Parsers} {i : Fin n} {schedule : List (Fin n × Turn)}

/-- A question of the engine's interface. -/
inductive Question where
  | why (target : String)
  | search (query : String)
  deriving DecidableEq, Repr

/-- The store operations of a question. -/
def Question.query (hash : String → String) (timestamp : Int → Option String)
    (observedSecond : String → Option Int) (resolver : Resolver)
    (supervisor : KernelRequest → Except EngineError KernelResponse) : Question → StoreQuery Reply
  | why target => do
    return .why (← whyQuery hash timestamp observedSecond resolver supervisor target)
  | search query => do
    return .search (← searchQuery observedSecond query)

/-- The answer to a question on one database. -/
def Question.answer (hash : String → String) (timestamp : Int → Option String)
    (observedSecond : String → Option Int) (resolver : Resolver)
    (supervisor : KernelRequest → Except EngineError KernelResponse) (db : Database) :
    Question → Except EngineError Reply
  | why target =>
    (Engine.why hash timestamp observedSecond resolver supervisor db target).map Reply.why
  | search query => (searchCandidates observedSecond db query).map Reply.search

theorem Question.eval_query (question : Question) (db : Database) :
    (question.query hash timestamp observedSecond resolver supervisor).eval db =
      question.answer hash timestamp observedSecond resolver supervisor db := by
  cases question with
  | why target =>
    show Query.eval db (_ >>= fun result => pure (Reply.why result)) = _
    rw [Query.eval_bind, eval_whyQuery]
    simp only [Question.answer]
    cases Engine.why hash timestamp observedSecond resolver supervisor db target with
    | error e => rfl
    | ok result => rfl
  | search query =>
    show Query.eval db (_ >>= fun result => pure (Reply.search result)) = _
    rw [Query.eval_bind, eval_searchQuery]
    simp only [Question.answer]
    cases searchCandidates observedSecond db query with
    | error e => rfl
    | ok result => rfl

theorem Question.readsOnce (question : Question) :
    (question.query hash timestamp observedSecond resolver supervisor).ReadsOnce Later Valid := by
  cases question with
  | why target =>
    show Query.ReadsOnce Later Valid (_ >>= fun result => pure (Reply.why result))
    exact Query.ReadsOnce.bind_pure (readsOnce_whyQuery target) Reply.why
  | search query =>
    have honce := @readsOnce_searchQuery observedSecond query
    show Query.ReadsOnce Later Valid (searchQuery observedSecond query >>=
      fun result => pure (Reply.search result))
    -- only that it reads once matters, not what it reads
    generalize searchQuery observedSecond query = reading at honce ⊢
    exact honce.bind_pure Reply.search

/-- **Answers under concurrency**: whatever is published between the two visits of `why` to the store,
    and whoever fails or is killed, a question is answered for the one database that was committed at
    one of its own turns. -/
theorem answers_at_one_moment (hreachable : Reachable site.shared) (hcalled : Uncalled site)
    (question : Question) (hi : site.locals i =
      .called (.ask (question.query hash timestamp observedSecond resolver supervisor)))
    {answer : Except EngineError Reply}
    (hanswer : (site.run (siteMove hash) schedule).locals i = .asking (.done answer)) :
    (∃ detail, answer = .error (.store (.database detail))) ∨
      ∃ before turn after, schedule = before ++ (i, turn) :: after ∧
        answer = question.answer hash timestamp observedSecond resolver supervisor
          (site.run (siteMove hash) before).shared := by
  have hmoment := answer_at_moment (siteValid_of_uncalled hreachable hcalled) question.readsOnce hi
    hanswer
  simp only [Question.eval_query] at hmoment
  exact hmoment

/-- Two clients of a database with one record, who ask about a commit. -/
def sampleSite : Site 2 :=
  ⟨recordsDatabase [unrelatedItem "ISSUE-1"], fun _ => .called (.ask ((Question.why
    "commit:c0ffee").query id (fun _ => none) (fun _ => none) sampleResolver kernelSupervisor))⟩

/-- The first client is answered, and for one of the databases of the run. -/
theorem answers_at_one_moment_sample : ∃ schedule answer,
    (sampleSite.run (siteMove id) schedule).locals 0 = .asking (.done answer) ∧
      ((∃ detail, answer = .error (.store (.database detail))) ∨
        ∃ before turn after, schedule = before ++ (0, turn) :: after ∧
          answer = (Question.why "commit:c0ffee").answer id (fun _ => none) (fun _ => none)
            sampleResolver kernelSupervisor (sampleSite.run (siteMove id) before).shared) := by
  have hreachable : Reachable sampleSite.shared :=
    reachable_recordsDatabase (List.pairwise_singleton _ _)
  have hcalled : Uncalled sampleSite := fun _ => ⟨_, rfl⟩
  have hfree := isLocked_of_uncalled hcalled
  obtain ⟨-, hlocal⟩ := @step_proceed 2 sampleSite 0 _ id rfl rfl
  have hgets : Gets id (sampleSite.step (siteMove id) (0, .proceed)) 0 _ :=
    finish_asking hlocal (isLocked_step hfree .proceed (by rw [hlocal]; rfl))
  obtain ⟨k, hk⟩ := hgets.after
  exact ⟨_, _, hk, answers_at_one_moment hreachable hcalled (.why "commit:c0ffee") rfl hk⟩

/-- **Synchronizations under concurrency**: a GitHub synchronization is built on the contribution that
    was current at one of its turns, and ends as `publish_evidence` does on the database that was
    committed at a later one. -/
theorem sync_at_its_moments (hreachable : Reachable site.shared) (hcalled : Uncalled site)
    {inputs : LocalInputs} {repository : GitHubRepository}
    {outcome : PriorGitHubContribution → GitHubSyncOutcome}
    (hi : site.locals i =
      .called (.sync (githubSyncQuery hash timestamp parsers inputs repository outcome)))
    {p : Publication} {result : Except EngineError SyncReport}
    (hresult : (site.run (siteMove hash) schedule).locals i = .publishing p (.done result)) :
    ∃ first turn between turn' after prior,
      schedule = first ++ (i, turn) :: between ++ (i, turn') :: after ∧
        priorGithubContribution (site.run (siteMove hash) first).shared (sourceIdOf repository) =
          .ok prior ∧
        p = githubPublication hash timestamp parsers prior inputs repository (outcome prior) ∧
        ((∃ detail, result = .error (.store (.database detail))) ∨
          Outcome hash p (site.run (siteMove hash) (first ++ (i, turn) :: between)).shared result) := by
  have hvalid := @siteValid_of_uncalled hash n site hreachable hcalled
  obtain ⟨before, turn', after, phase, rfl, hphase, hend⟩ := outcome_at_moment hvalid hi hresult
  -- what was read before the turn that ended the call
  have hread : ∃ first turn between, before = first ++ (i, turn) :: between ∧
      (githubSyncQuery hash timestamp parsers inputs repository outcome).eval
        (site.run (siteMove hash) first).shared = .ok p := by
    rcases isFree_or_isPinned hvalid hi readsOnce_githubSyncQuery before with
      hfree | ⟨first, turn, between, heq, hpinned⟩
    · have hchanged : (site.run (siteMove hash) before).locals i ≠ .called (.sync
          (githubSyncQuery hash timestamp parsers inputs repository outcome)) := by
        rw [hphase]
        intro h
        cases h
      obtain ⟨first, turn, between, heq⟩ := exists_turn_of_called hash hi hchanged
      rw [hphase] at hfree
      cases hfree with
      | prepared _ heval => exact ⟨first, turn, between, heq, heval _⟩
    · rw [hphase] at hpinned
      cases hpinned with
      | prepared _ heval => exact ⟨first, turn, between, heq, heval⟩
  obtain ⟨first, turn, between, rfl, heval⟩ := hread
  obtain ⟨prior, hprior, hp⟩ := eval_githubSyncQuery.mp heval
  exact ⟨first, turn, between, turn', after, prior, rfl, hprior, hp, hend⟩

/-- A synchronization of a fresh database, with GitHub unavailable. -/
theorem sync_at_its_moments_empty : ∃ schedule p result,
    (syncSite.run (siteMove id) schedule).locals 0 = .publishing p (.done result) ∧
      ∃ first turn between turn' after prior,
        schedule = first ++ (0, turn) :: between ++ (0, turn') :: after ∧
          priorGithubContribution (syncSite.run (siteMove id) first).shared (sourceIdOf widget) =
            .ok prior ∧
          p = githubPublication id (fun _ => none) noParsers prior
            (historyInputs [⟨"a", "First", 0, []⟩]) widget .failed ∧
          ((∃ detail, result = .error (.store (.database detail))) ∨
            Outcome id p (syncSite.run (siteMove id) (first ++ (0, turn) :: between)).shared
              result) := by
  have hfree := isLocked_of_uncalled uncalled_syncSite
  obtain ⟨-, hlocal⟩ := @step_proceed 2 syncSite 0 _ id rfl rfl
  have heval : ∀ db, db = Database.empty → ∃ p,
      (githubSyncQuery id (fun _ => none) noParsers (historyInputs [⟨"a", "First", 0, []⟩]) widget
        (fun _ => .failed)).eval db = .ok p := by
    rintro db rfl
    exact ⟨_, eval_githubSyncQuery.mpr ⟨.default, rfl, rfl⟩⟩
  rcases finish_preparing hlocal (isLocked_step hfree .proceed (by rw [hlocal]; rfl)) with
    ⟨e, herror, -⟩ | ⟨p, -, hgets⟩
  · obtain ⟨p, hp⟩ := heval _ rfl
    cases hp.symm.trans herror
  · obtain ⟨k, result, hk⟩ := hgets.after
    exact ⟨_, p, result, hk, sync_at_its_moments Reachable.empty uncalled_syncSite rfl hk⟩

end Calls

end Rationale.Engine
