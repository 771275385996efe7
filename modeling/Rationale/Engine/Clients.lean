import Rationale.Engine.StoreCalls

namespace Rationale.Engine

open Std Rationale.Library Rationale.Git Rationale.GitHub Rationale.Store

/-!
# Clients of one evidence database

Any number of processes call the engine on one database at the same time: some synchronize, each with
evidence of its own, and others ask.  Store operations may fail, and a process may be killed at any
moment; SQLite then rolls its open transaction back.

* `Client`, `Turn`, `siteMove` — a call of the engine, what can happen to it, and what it then does;
* `ClientStep`, `clientStep_advance` — the reasons for each turn;
* `SiteValid` — the invariant of a site, kept by every turn (`SiteValid.step`);
* `Outcome` — how a call of `publish_evidence` ends on the database that is committed then.
-/

/-- What a question is answered with. -/
inductive Reply where
  | why (result : WhyResult)
  | search (result : CandidateSearchResult)
  deriving DecidableEq, Repr

/-- What a client calls. -/
inductive Command where
  /-- `sync` or `sync_local`: what it reads, and the publication that it makes of that. -/
  | sync (prepare : StoreQuery Publication)
  /-- `why` or `search_candidates`. -/
  | ask (question : StoreQuery Reply)

/-- Where a client's call is. -/
inductive Client where
  | called (command : Command)
  | preparing (prepare : StoreQuery Publication)
  | publishing (publication : Publication) (phase : Phase)
  | asking (question : StoreQuery Reply)
  | killed

/-- What happens when a client takes its turn. -/
inductive Turn where
  | proceed
  /-- SQLite fails the store operation: the lock is held for too long, the disk is full. -/
  | fault (detail : String)
  | kill
  deriving DecidableEq, Repr

namespace Client

/-- The client holds the write lock. -/
def isWriting : Client → Bool
  | publishing _ phase => phase.isWriting
  | _ => false

/-- The call has returned, or never will. -/
def isOver : Client → Bool
  | preparing (.done (.error _)) => true
  | publishing _ (.done _) => true
  | asking (.done _) => true
  | killed => true
  | _ => false

/-- The call returns an error; an open transaction is rolled back. -/
def fail (e : EngineError) : Client → Client
  | called (.sync _) => preparing (.done (.error e))
  | called (.ask _) => asking (.done (.error e))
  | preparing _ => preparing (.done (.error e))
  | publishing p _ => publishing p (.done (.error e))
  | asking _ => asking (.done (.error e))
  | killed => killed

/-- The client's next store operation. -/
def advance (hash : String → String) (locked : Bool) (db : Database) : Client → Database × Client
  | called (.sync prepare) => (db, preparing prepare)
  | called (.ask question) => (db, asking question)
  | preparing (.done (.ok p)) => (db, publishing p .start)
  | preparing prepare => (db, preparing (prepare.advance locked db))
  | publishing p phase =>
    let next := phase.advance hash p locked db
    (next.1, publishing p next.2)
  | asking question => (db, asking (question.advance locked db))
  | killed => (db, killed)

/-- One turn of a client. -/
def turn (hash : String → String) (locked : Bool) (db : Database) (client : Client) (turn : Turn) :
    Database × Client :=
  if client.isOver then (db, client)
  else match turn with
    | .proceed => client.advance hash locked db
    | .fault detail => (db, client.fail (.store (.database detail)))
    | .kill => (db, killed)

end Client

/-- A database and its clients. -/
abbrev Site (n : Nat) := Pool (Fin n) Database Client

/-- Some client has an immediate transaction open. -/
def isLocked {n : Nat} (site : Site n) : Bool := decide (∃ i, (site.locals i).isWriting)

/-- What a turn of a client does at its site. -/
def siteMove (hash : String → String) {n : Nat} : Pool.Move (Fin n) Turn Database Client :=
  fun site i turn => (site.locals i).turn hash (isLocked site) site.shared turn

/-- The reasons for each turn. -/
inductive ClientStep (hash : String → String) (locked : Bool) (db : Database) :
    Client → Database × Client → Prop where
  | stays (client : Client) (h : client.isOver = true) :
      ClientStep hash locked db client (db, client)
  | isKilled (client : Client) : ClientStep hash locked db client (db, .killed)
  | fails (client : Client) (detail : String) :
      ClientStep hash locked db client (db, client.fail (.store (.database detail)))
  | syncs (prepare : StoreQuery Publication) :
      ClientStep hash locked db (.called (.sync prepare)) (db, .preparing prepare)
  | asks (question : StoreQuery Reply) :
      ClientStep hash locked db (.called (.ask question)) (db, .asking question)
  | prepared (p : Publication) :
      ClientStep hash locked db (.preparing (.done (.ok p))) (db, .publishing p .start)
  | prepares (prepare : StoreQuery Publication) :
      ClientStep hash locked db (.preparing prepare) (db, .preparing (prepare.advance locked db))
  | publishes {p : Publication} {phase : Phase} {next : Database × Phase}
      (h : PhaseStep hash p locked db phase next) :
      ClientStep hash locked db (.publishing p phase) (next.1, .publishing p next.2)
  | reads (question : StoreQuery Reply) :
      ClientStep hash locked db (.asking question) (db, .asking (question.advance locked db))

section Steps

variable {hash : String → String} {locked : Bool} {db : Database}

/-- Every turn has one of these reasons. -/
theorem clientStep_turn (client : Client) (turn : Turn) :
    ClientStep hash locked db client (client.turn hash locked db turn) := by
  unfold Client.turn
  split
  next hover => exact .stays client hover
  next =>
    cases turn with
    | fault detail => exact .fails client detail
    | kill => exact .isKilled client
    | proceed =>
      cases client with
      | called command =>
        cases command with
        | sync prepare => exact .syncs prepare
        | ask question => exact .asks question
      | preparing prepare =>
        cases prepare with
        | done result =>
          cases result with
          | error e => exact .prepares _
          | ok p => exact .prepared p
        | await next => exact .prepares _
        | read next => exact .prepares _
      | publishing p phase => exact .publishes (phaseStep_advance hash p locked db phase)
      | asking question => exact .reads question
      | killed => exact .isKilled _

end Steps

/-! ### Publications -/

/-- How a call of `publish_evidence` ends on a database: the current snapshot is reused, or one is
    published, or the publication fails. -/
inductive Outcome (hash : String → String) (p : Publication) (db : Database) :
    Except EngineError SyncReport → Prop where
  | reused (h : db.current = some (p.snapshotId hash)) : Outcome hash p db (.ok (p.report hash true))
  | published {committed : Database} (h : p.publishNew hash db = .ok committed) :
      Outcome hash p db (.ok (p.report hash false))
  | rejected {e : StoreError} (h : p.publishNew hash db = .error e) :
      Outcome hash p db (.error (.store e))

/-- The client has reported the publication of a new snapshot. -/
def Client.Reports (hash : String → String) (p : Publication) (client : Client) : Prop :=
  client = .publishing p (.done (.ok (p.report hash false)))

/-- An open transaction of the client is one over this database. -/
def Client.WritesOn (hash : String → String) (db : Database) (client : Client) : Prop :=
  ∀ p phase, client = .publishing p phase → Engine.WritesOn hash p.evidence p.sources db phase

section Publications

variable {hash : String → String} {locked : Bool} {db db' : Database} {p : Publication}

theorem report_ne : p.report hash false ≠ p.report hash true := by
  intro h
  exact Bool.noConfusion (congrArg SyncReport.unchanged h)

theorem Client.writesOn_of_not_writing {client : Client} (h : client.isWriting = false) :
    client.WritesOn hash db := by
  intro p phase heq
  rw [heq] at h
  exact Engine.writesOn_of_not_writing h

/-- What is published stays as it is. -/
theorem later_publishNew (h : p.publishNew hash db = .ok db') : Later db db' := by
  obtain ⟨hnew, -, rfl⟩ := publishCandidate_eq_ok.mp h
  refine ⟨⟨fun id node hnode => ?_, fun id edge hedge => ?_, fun conflict hconflict => ?_⟩,
    fun id snapshot hsnapshot => ?_⟩
  · show (insertNewAll EvidenceNode.id db.records (values p.evidence.sorted.records))[id]? = some node
    rw [getElem?_insertNewAll, hnode]
    rfl
  · show (insertNewAll EvidenceEdge.id db.edges (values p.evidence.sorted.edges))[id]? = some edge
    rw [getElem?_insertNewAll, hedge]
    rfl
  · exact (@mem_foldl_insert Conflict Conflict compareConflicts _ (fun conflict => conflict)
      p.evidence.sorted.conflicts _ db.conflicts conflict).mpr (Or.inl hconflict)
  · have hmem : id ∈ db.snapshots :=
      ExtTreeMap.isSome_getElem?_iff_mem.mp (by rw [hsnapshot]; rfl)
    have hne : snapshotIdOf hash p.evidence p.sources ≠ id := fun heq => hnew (heq ▸ hmem)
    show (db.snapshots.insert _ _)[id]? = some snapshot
    simp [ExtTreeMap.getElem?_insert, hne, hsnapshot]

/-- Publishing a new snapshot is what remains to be done of an open transaction. -/
theorem publishNew_of_publish {candidate : CandidateSnapshot}
    (hwrites : WritesOn hash p.evidence p.sources db (.writing candidate []))
    (h : candidate.publish = .ok db') : p.publishNew hash db = .ok db' :=
  hwrites.publishNew_eq.trans h

end Publications

/-! ### The invariant -/

/-- **The invariant of a site.** -/
structure SiteValid (hash : String → String) {n : Nat} (site : Site n) : Prop where
  reachable : Reachable site.shared
  writes : ∀ i, (site.locals i).WritesOn hash site.shared
  oneWriter : ∀ i j, (site.locals i).isWriting = true → (site.locals j).isWriting = true → i = j

/-- What a turn can do to the database: nothing, or publish. -/
inductive Effect (hash : String → String) (locked : Bool) (db : Database) (client : Client) :
    Database × Client → Prop where
  | quiet {next : Client} (hwrites : next.WritesOn hash db)
      (hlock : next.isWriting = true → client.isWriting = true ∨ locked = false)
      (hreports : ∀ p, next.Reports hash p → next = client) :
      Effect hash locked db client (db, next)
  | publication {p : Publication} {committed : Database} (hwriting : client.isWriting = true)
      (h : p.publishNew hash db = .ok committed) : Effect hash locked db client
        (committed, .publishing p (.done (.ok (p.report hash false))))

section Invariant

variable {hash : String → String} {locked : Bool} {db : Database} {client : Client}
  {next : Database × Client} {n : Nat} {site : Site n}

/-- A turn that begins no transaction and reports nothing. -/
theorem effect_idle {next : Client} (hwriting : next.isWriting = false)
    (hreports : ∀ p, ¬ next.Reports hash p) : Effect hash locked db client (db, next) := by
  refine .quiet (Client.writesOn_of_not_writing hwriting) (fun h => ?_)
    (fun p h => absurd h (hreports p))
  rw [hwriting] at h
  exact nomatch h

theorem fail_idle (hash : String → String) (client : Client) (e : EngineError) :
    (client.fail e).isWriting = false ∧ ∀ p, ¬ (client.fail e).Reports hash p := by
  unfold Client.Reports
  cases client with
  | called command =>
    cases command with
    | sync prepare => exact ⟨rfl, fun p h => by cases h⟩
    | ask question => exact ⟨rfl, fun p h => by cases h⟩
  | preparing prepare => exact ⟨rfl, fun p h => by cases h⟩
  | publishing q phase => exact ⟨rfl, fun p h => by cases h⟩
  | asking question => exact ⟨rfl, fun p h => by cases h⟩
  | killed => exact ⟨rfl, fun p h => by cases h⟩

/-- **The effect of a turn.** -/
theorem ClientStep.effect (h : ClientStep hash locked db client next)
    (hwrites : client.WritesOn hash db) : Effect hash locked db client next := by
  cases h with
  | stays _ _ => exact .quiet hwrites Or.inl (fun _ _ => rfl)
  | isKilled _ => exact effect_idle rfl (fun p h => by cases h)
  | fails _ detail =>
    exact effect_idle (fail_idle hash client _).1 (fail_idle hash client _).2
  | syncs _ => exact effect_idle rfl (fun p h => by cases h)
  | asks _ => exact effect_idle rfl (fun p h => by cases h)
  | prepared p => exact effect_idle rfl (fun p h => by cases h)
  | prepares _ => exact effect_idle rfl (fun p h => by cases h)
  | reads _ => exact effect_idle rfl (fun p h => by cases h)
  | @publishes p phase next hphase =>
    have hwrites := hwrites p phase rfl
    cases hphase with
    | waits _ hwaits =>
      exact .quiet (Client.writesOn_of_not_writing hwaits) Or.inl (fun _ _ => rfl)
    | opens => exact effect_idle rfl (fun p h => by cases h)
    | reuses _ =>
      refine effect_idle rfl (fun q hq => ?_)
      obtain ⟨rfl, hdone⟩ := Client.publishing.inj hq
      exact report_ne (Except.ok.inj (Phase.done.inj hdone)).symm
    | isOutdated => exact effect_idle rfl (fun p h => by cases h)
    | begins hfree hbegin =>
      refine .quiet (fun q phase heq => ?_) (fun _ => Or.inr hfree) (fun q hq => by cases hq)
      obtain ⟨rfl, rfl⟩ := Client.publishing.inj heq
      intro candidate remaining hphase
      obtain ⟨rfl, rfl⟩ := Phase.writing.inj hphase
      exact ⟨_, hbegin, rfl⟩
    | isRejected _ => exact effect_idle rfl (fun p h => by cases h)
    | executes hok =>
      refine .quiet (fun q phase heq => ?_) (fun _ => Or.inl rfl) (fun q hq => by cases hq)
      obtain ⟨rfl, rfl⟩ := Client.publishing.inj heq
      exact hwrites.next hok
    | fails _ => exact effect_idle rfl (fun p h => by cases h)
    | publishes hok => exact .publication rfl (publishNew_of_publish hwrites hok)
    | isNotPublished _ => exact effect_idle rfl (fun p h => by cases h)

/-- Every turn moves the database on. -/
theorem Effect.later (h : Effect hash locked db client next) : Later db next.1 := by
  cases h with
  | quiet _ _ _ => exact Later.refl db
  | publication _ hok => exact later_publishNew hok

theorem isLocked_iff : isLocked site = true ↔ ∃ i, (site.locals i).isWriting = true := by
  simp [isLocked]

theorem clientStep_siteMove (hash : String → String) (site : Site n) (i : Fin n) (turn : Turn) :
    ClientStep hash (isLocked site) site.shared (site.locals i) (siteMove hash site i turn) :=
  clientStep_turn (site.locals i) turn

theorem SiteValid.effect (h : SiteValid hash site) (i : Fin n) (turn : Turn) :
    Effect hash (isLocked site) site.shared (site.locals i) (siteMove hash site i turn) :=
  (clientStep_siteMove hash site i turn).effect (h.writes i)

/-- **Every turn keeps the invariant.** -/
theorem SiteValid.step (h : SiteValid hash site) (turn : Fin n × Turn) :
    SiteValid hash (site.step (siteMove hash) turn) := by
  have heffect := h.effect turn.1 turn.2
  -- the writers other than the client that moves
  have honly : ∀ j, j ≠ turn.1 → (site.locals j).isWriting = true →
      (site.locals turn.1).isWriting = false ∧ isLocked site = true := by
    intro j hj hwriting
    refine ⟨?_, isLocked_iff.mpr ⟨j, hwriting⟩⟩
    rw [Bool.eq_false_iff]
    exact fun hself => hj (h.oneWriter j turn.1 hwriting hself)
  generalize hnext : siteMove hash site turn.1 turn.2 = next at heffect
  have hshared : (site.step (siteMove hash) turn).shared = next.1 := by
    rw [Pool.step_shared, hnext]
  have hself : (site.step (siteMove hash) turn).locals turn.1 = next.2 := by
    rw [Pool.step_locals_self, hnext]
  cases heffect with
  | @quiet next hwrites hlock _ =>
    refine ⟨?_, ?_, ?_⟩
    · rw [hshared]
      exact h.reachable
    · rw [hshared]
      refine Pool.forall_step (p := fun _ (client : Client) => client.WritesOn hash site.shared) ?_
        (fun j _ => h.writes j)
      rw [hnext]
      exact hwrites
    · -- a new writer found the lock free
      have hpair : ∀ j, j ≠ turn.1 → (site.locals j).isWriting = true → next.isWriting = true →
          False := by
        intro j hj hwriting hnew
        obtain ⟨hold, hlocked⟩ := honly j hj hwriting
        rcases hlock hnew with hself | hfree
        · rw [hself] at hold
          exact nomatch hold
        · rw [hlocked] at hfree
          exact nomatch hfree
      intro j k hj hk
      by_cases hjself : j = turn.1
      · by_cases hkself : k = turn.1
        · exact hjself.trans hkself.symm
        · rw [hjself, hself] at hj
          rw [Pool.step_locals_ne hkself] at hk
          exact (hpair k hkself hk hj).elim
      · rw [Pool.step_locals_ne hjself] at hj
        by_cases hkself : k = turn.1
        · rw [hkself, hself] at hk
          exact (hpair j hjself hj hk).elim
        · rw [Pool.step_locals_ne hkself] at hk
          exact h.oneWriter j k hj hk
  | @publication p committed hwriting hok =>
    -- the client that publishes was the only writer
    have hnone : ∀ j, ((site.step (siteMove hash) turn).locals j).isWriting = false := by
      refine Pool.forall_step (p := fun _ (client : Client) => client.isWriting = false) ?_ (fun j hj => ?_)
      · rw [hnext]
        rfl
      · rw [Bool.eq_false_iff]
        intro hother
        rw [(honly j hj hother).1] at hwriting
        exact nomatch hwriting
    refine ⟨?_, fun j => Client.writesOn_of_not_writing (hnone j), fun j k hj => ?_⟩
    · rw [hshared]
      exact reachable_publishCandidate h.reachable hok
    · rw [hnone j] at hj
      exact nomatch hj

/-- Every client is about to call the engine. -/
def Uncalled (site : Site n) : Prop := ∀ i, ∃ command, site.locals i = .called command

theorem not_isWriting_of_uncalled (h : Uncalled site) (i : Fin n) :
    (site.locals i).isWriting = false := by
  obtain ⟨command, hcommand⟩ := h i
  rw [hcommand]
  rfl

theorem isLocked_of_uncalled (h : Uncalled site) : isLocked site = false := by
  rw [Bool.eq_false_iff, Ne, isLocked_iff]
  rintro ⟨i, hi⟩
  rw [not_isWriting_of_uncalled h i] at hi
  exact nomatch hi

theorem siteValid_of_uncalled (hreachable : Reachable site.shared) (h : Uncalled site) :
    SiteValid hash site := by
  have hnone := not_isWriting_of_uncalled h
  refine ⟨hreachable, fun i => Client.writesOn_of_not_writing (hnone i), fun i j hi => ?_⟩
  rw [hnone i] at hi
  exact nomatch hi

/-- **The invariant holds over every run.** -/
theorem SiteValid.run (h : SiteValid hash site) (schedule : List (Fin n × Turn)) :
    SiteValid hash (site.run (siteMove hash) schedule) :=
  Pool.run_keeps (fun _ turn hsite => hsite.step turn) h schedule

end Invariant

end Rationale.Engine
