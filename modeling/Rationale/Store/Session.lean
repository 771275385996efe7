import Rationale.Store.Slice
import Rationale.Store.Statement

namespace Rationale.Store

open Std Relation Rationale.Library

/-!
# Sessions of the store

Any sequence of store operations on one database, any of which may fail.  An immediate transaction
excludes every other writer, so at most one candidate is open, whoever opened it.

* `Session` — the committed database, the open candidate, and the publications so far;
* `Attempt`, `step` — an operation, and how far its writes came before the environment failed;
* `SessionValid` — the invariant, kept by every attempt (`SessionValid.step`);
* `Later` — what no attempt takes back;
* `run_published` — published snapshots are closed and immutable.
-/

/-- Operations of `EvidenceStore` and of its open `CandidateSnapshot` that write. -/
inductive Operation where
  | openStore
  | beginCandidate (id : String)
  | statement (statement : Statement)
  | publish
  /-- `abandon`, or dropping the candidate. -/
  | abandon
  deriving DecidableEq, Repr

/-- An operation, and the number of its writes after which the environment fails (a full disk, an
    I/O error), if it does.  An operation with fewer writes is not struck. -/
structure Attempt where
  operation : Operation
  fault : Option Nat
  deriving DecidableEq, Repr

/-- The failure comes before the last of `writes` writes is done. -/
def struck (fault : Option Nat) (writes : Nat) : Bool := fault.any (· < writes)

/-- The writes of a statement: its row, and the row's membership in the snapshot. -/
def Statement.writes : Statement → Nat
  | .record _ => 2
  | .edge _ => 2
  | .conflict _ => 2
  | .source _ => 1
  | .diagnostic _ => 1

/-- Run one statement.  SQLite undoes a write that fails, and keeps the earlier ones of the
    transaction. -/
def CandidateSnapshot.attempt (candidate : CandidateSnapshot) (statement : Statement)
    (fault : Option Nat) : CandidateSnapshot :=
  match candidate.execute statement with
  | .error _ => candidate
  | .ok next =>
    if struck fault 1 then candidate
    -- the immutable row is stored, and the snapshot does not have it
    else if struck fault statement.writes then { candidate with transaction := next.transaction }
    else next

/-- The state of one database. -/
structure Session where
  /-- What every reader sees. -/
  committed : Database
  /-- The open immediate transaction. -/
  candidate : Option CandidateSnapshot
  /-- The identifiers published so far, in order (a history variable; no operation reads it). -/
  published : List String

/-- A freshly created store. -/
def Session.fresh : Session := ⟨Database.empty, none, []⟩

/-- One attempt.  Whatever fails inside `begin_candidate`, `publish` and `abandon` rolls the
    transaction back. -/
def Session.step (session : Session) (attempt : Attempt) : Session :=
  match attempt.operation, session.candidate with
  -- migrating a migrated database changes nothing
  | .openStore, _ => session
  | .beginCandidate id, none =>
    if struck attempt.fault 2 then session
    else match beginCandidate session.committed id with
      | .error _ => session
      | .ok candidate => { session with candidate := some candidate }
  -- another immediate transaction cannot begin: the database is locked
  | .beginCandidate _, some _ => session
  | .statement statement, some candidate =>
    { session with candidate := some (candidate.attempt statement attempt.fault) }
  | .publish, some candidate =>
    -- the state, the cursors, the pointer and the commit
    if struck attempt.fault 4 then { session with candidate := none }
    else match candidate.publish with
      | .error _ => { session with candidate := none }
      | .ok committed => ⟨committed, none, session.published ++ [candidate.snapshotId]⟩
  | .abandon, some _ => { session with candidate := none }
  -- without a candidate there is nothing to call these on
  | .statement _, none => session
  | .publish, none => session
  | .abandon, none => session

def Session.run (session : Session) (attempts : List Attempt) : Session :=
  attempts.foldl Session.step session

/-! ### Cursors -/

/-- The cursor that a snapshot records for a source. -/
def recordedCursor (db : Database) (sourceId id : String) : Option String :=
  (db.snapshot id).sources[sourceId]?.bind (·.cursor)

/-- The cursor of the last of these snapshots that records one. -/
def lastCursor (db : Database) (ids : List String) (sourceId : String) : Option String :=
  ids.reverse.findSome? (recordedCursor db sourceId)

theorem getElem?_advanceCursors_list {sources : List SourceState}
    (hl : sources.Pairwise (fun a b => a.sourceId ≠ b.sourceId)) (cursors : StringMap String)
    (sourceId : String) : (advanceCursors cursors sources)[sourceId]? =
      ((sources.find? (fun source => source.sourceId = sourceId)).bind (·.cursor)).or
        cursors[sourceId]? := by
  induction sources generalizing cursors with
  | nil => rfl
  | cons source sources ih =>
    obtain ⟨hne, htail⟩ := List.pairwise_cons.mp hl
    rw [advanceCursors, List.foldl_cons, ← advanceCursors, ih htail]
    by_cases hid : source.sourceId = sourceId
    · -- no later source has this identifier
      have hnone : sources.find? (fun other => other.sourceId = sourceId) = none := by
        rw [List.find?_eq_none]
        intro other hother heq
        exact hne other hother (hid.trans (of_decide_eq_true heq).symm)
      have hfirst : (source :: sources).find? (fun other => other.sourceId = sourceId) =
          some source := by simp [hid]
      rw [hnone, hfirst]
      cases hcursor : source.cursor with
      | none => simp [hcursor]
      | some cursor => simp [hcursor, hid]
    · have hskip : (source :: sources).find? (fun other => other.sourceId = sourceId) =
          sources.find? (fun other => other.sourceId = sourceId) := by simp [hid]
      rw [hskip]
      congr 1
      cases source.cursor with
      | none => rfl
      | some cursor => simp [ExtTreeMap.getElem?_insert, hid]

/-- A publication replaces the cursors of the sources that record one. -/
theorem getElem?_advanceCursors {sources : StringMap SourceState}
    (hkeyed : KeyedBy SourceState.sourceId sources) (cursors : StringMap String)
    (sourceId : String) : (advanceCursors cursors (values sources))[sourceId]? =
      (sources[sourceId]?.bind (·.cursor)).or cursors[sourceId]? := by
  rw [getElem?_advanceCursors_list (pairwise_key_ne hkeyed.values_pairwise), hkeyed.find?_values]

/-! ### Growth -/

/-- Nothing that was committed is changed. -/
structure Later (old new : Database) : Prop where
  tables : Extends old new
  snapshots : ∀ (id : String) snapshot, old.snapshots[id]? = some snapshot →
    new.snapshots[id]? = some snapshot

theorem Later.refl (db : Database) : Later db db := ⟨Extends.refl db, fun _ _ h => h⟩

theorem Later.trans {a b c : Database} (hab : Later a b) (hbc : Later b c) : Later a c where
  tables := hab.tables.trans hbc.tables
  snapshots id snapshot h := hbc.snapshots id snapshot (hab.snapshots id snapshot h)

section Later

variable {old new : Database} {id : String}

/-- An old snapshot keeps its rows. -/
theorem Later.snapshot_eq (h : Later old new) (hid : id ∈ old.snapshots) :
    new.snapshot id = old.snapshot id := by
  unfold Database.snapshot
  rw [getElem?_eq_of_grows h.snapshots hid]

/-- What is read of an old snapshot does not change. -/
theorem Later.snapshotSlice_eq (h : Later old new) (hv : Valid old) (hid : id ∈ old.snapshots) :
    snapshotSlice new id = snapshotSlice old id := by
  obtain ⟨snapshot, hsnapshot⟩ := Option.isSome_iff_exists.mp
    (ExtTreeMap.isSome_getElem?_iff_mem.mpr hid)
  have hstored : Stored old (old.snapshot id) := by
    unfold Database.snapshot
    rw [hsnapshot]
    exact hv.stored id snapshot hsnapshot
  have hrecords := hstored.memberRecords_eq h.tables
  have hedges := hstored.memberEdges_eq h.tables
  simp only [snapshotSlice, loadSources, h.snapshot_eq hid, hrecords, hedges]

theorem Later.loadQuarantine_eq (h : Later old new) (hid : id ∈ old.snapshots) :
    loadQuarantine new id = loadQuarantine old id := by
  unfold loadQuarantine
  rw [h.snapshot_eq hid]

theorem Later.recordedCursor_eq (h : Later old new) (hid : id ∈ old.snapshots) (sourceId : String) :
    recordedCursor new sourceId id = recordedCursor old sourceId id := by
  unfold recordedCursor
  rw [h.snapshot_eq hid]

end Later

/-! ### The invariant -/

/-- What holds of an open candidate over its committed database. -/
structure CandidateOpen (base : Database) (candidate : CandidateSnapshot) : Prop where
  valid : CandidateValid base candidate
  fresh : candidate.snapshotId ∉ base.snapshots
  cursors : candidate.transaction.sourceCursors = base.sourceCursors
  sources_keyed : KeyedBy SourceState.sourceId candidate.rows.sources

/-- **The invariant of a session.** -/
structure SessionValid (session : Session) : Prop where
  valid : Valid session.committed
  candidate : ∀ candidate, session.candidate = some candidate →
    CandidateOpen session.committed candidate
  published : ∀ id, id ∈ session.published ↔ id ∈ session.committed.snapshots
  current : session.committed.current = session.published.getLast?
  cursors : ∀ sourceId, sourceCursor session.committed sourceId =
    lastCursor session.committed session.published sourceId

theorem sessionValid_fresh : SessionValid Session.fresh where
  valid := valid_empty
  candidate candidate h := nomatch h
  published id := by simp [Session.fresh, Database.empty]
  current := rfl
  cursors sourceId := by simp [Session.fresh, Database.empty, sourceCursor, lastCursor]

section Statements

variable {base : Database} {candidate : CandidateSnapshot}

theorem effect_snapshotId (statement : Statement) :
    (candidate.effect statement).snapshotId = candidate.snapshotId := by
  cases statement <;> rfl

theorem effect_sourceCursors (statement : Statement) :
    (candidate.effect statement).transaction.sourceCursors =
      candidate.transaction.sourceCursors := by
  cases statement <;> rfl

theorem effect_sources_keyed (h : KeyedBy SourceState.sourceId candidate.rows.sources)
    (statement : Statement) :
    KeyedBy SourceState.sourceId (candidate.effect statement).rows.sources := by
  cases statement with
  | record node => exact h
  | edge edge => exact h
  | conflict conflict => exact h
  | source source => exact KeyedBy.insertAll (l := [source]) h
  | diagnostic diagnostic => exact h

/-- A statement that succeeds keeps the candidate's invariant. -/
theorem CandidateOpen.execute (h : CandidateOpen base candidate) {statement : Statement}
    {next : CandidateSnapshot} (hok : candidate.execute statement = .ok next) :
    CandidateOpen base next := by
  have hvalid := h.valid.step (CandidateSnapshot.candidateStep_of_execute hok)
  obtain ⟨-, rfl⟩ := CandidateSnapshot.execute_eq_ok.mp hok
  refine ⟨hvalid, ?_, ?_, effect_sources_keyed h.sources_keyed statement⟩
  · rw [effect_snapshotId]
    exact h.fresh
  · rw [effect_sourceCursors]
    exact h.cursors

/-- A transaction's own tables grow with each of its statements. -/
theorem CandidateValid.extends_execute (h : CandidateValid base candidate) {statement : Statement}
    {next : CandidateSnapshot} (hok : candidate.execute statement = .ok next) :
    Extends candidate.transaction next.transaction := by
  have hself : CandidateValid candidate.transaction candidate :=
    ⟨Extends.refl _, rfl, rfl, h.records_keyed, h.edges_keyed, h.stored⟩
  exact (hself.step (CandidateSnapshot.candidateStep_of_execute hok)).extends_base

/-- So does a statement of which only the immutable row was written. -/
theorem CandidateOpen.firstWrite (h : CandidateOpen base candidate) {statement : Statement}
    {next : CandidateSnapshot} (hok : candidate.execute statement = .ok next) :
    CandidateOpen base { candidate with transaction := next.transaction } := by
  have hnext := h.execute hok
  have hstored := h.valid.stored.mono (h.valid.extends_execute hok)
  exact ⟨⟨hnext.valid.extends_base, hnext.valid.snapshots, hnext.valid.current,
    hnext.valid.records_keyed, hnext.valid.edges_keyed, hstored⟩, h.fresh, hnext.cursors,
    h.sources_keyed⟩

/-- Whatever happens to a statement, the candidate stays valid. -/
theorem CandidateOpen.attempt (h : CandidateOpen base candidate) (statement : Statement)
    (fault : Option Nat) : CandidateOpen base (candidate.attempt statement fault) := by
  unfold CandidateSnapshot.attempt
  cases hok : candidate.execute statement with
  | error e => exact h
  | ok next =>
    dsimp only
    split
    · exact h
    · split
      · exact h.firstWrite hok
      · exact h.execute hok

end Statements

/-- A new candidate is open over its database. -/
theorem candidateOpen_begin {db : Database} (hv : Valid db) {id : String}
    {candidate : CandidateSnapshot} (h : beginCandidate db id = .ok candidate) :
    CandidateOpen db candidate := by
  have hvalid := candidateValid_begin hv h
  unfold beginCandidate at h
  split at h
  · exact nomatch h
  next hid =>
    obtain rfl := Except.ok.inj h
    exact ⟨hvalid, hid, rfl, keyedBy_empty⟩

section Publish

variable {session : Session} {candidate : CandidateSnapshot}

theorem getElem?_published (h : CandidateOpen session.committed candidate) (id : String) :
    candidate.published.snapshots[id]? =
      if candidate.snapshotId = id then some { candidate.rows with state := .published }
      else session.committed.snapshots[id]? := by
  rw [← h.valid.snapshots]
  exact Database.getElem?_setSnapshot _ _ _ _

/-- A publication adds one snapshot under a new identifier. -/
theorem CandidateOpen.later (h : CandidateOpen session.committed candidate) :
    Later session.committed candidate.published where
  tables := ⟨h.valid.extends_base.records, h.valid.extends_base.edges,
    h.valid.extends_base.conflicts⟩
  snapshots id snapshot hsnapshot := by
    have hmem : id ∈ session.committed.snapshots :=
      ExtTreeMap.isSome_getElem?_iff_mem.mp (by rw [hsnapshot]; rfl)
    have hne : candidate.snapshotId ≠ id := fun heq => h.fresh (heq ▸ hmem)
    rw [getElem?_published h, if_neg hne]
    exact hsnapshot

/-- The new snapshot's cursors come before those of the older ones. -/
theorem CandidateOpen.sourceCursor_published (h : CandidateOpen session.committed candidate)
    (hs : SessionValid session) (sourceId : String) :
    sourceCursor candidate.published sourceId =
      lastCursor candidate.published (session.published ++ [candidate.snapshotId]) sourceId := by
  have hnew : recordedCursor candidate.published sourceId candidate.snapshotId =
      candidate.rows.sources[sourceId]?.bind (·.cursor) := by
    unfold recordedCursor Database.snapshot
    rw [getElem?_published h, if_pos rfl]
    rfl
  -- the older snapshots are not touched by the commit
  have hold : session.published.reverse.findSome? (recordedCursor candidate.published sourceId) =
      session.published.reverse.findSome? (recordedCursor session.committed sourceId) := by
    rw [← List.head?_filterMap, ← List.head?_filterMap]
    refine congrArg List.head? (List.filterMap_congr (fun id hid => ?_))
    have hmem := (hs.published id).mp (List.mem_reverse.mp hid)
    exact h.later.recordedCursor_eq hmem sourceId
  have hstored : candidate.transaction.sourceCursors[sourceId]? =
      lastCursor session.committed session.published sourceId := by
    rw [h.cursors]
    exact hs.cursors sourceId
  calc sourceCursor candidate.published sourceId
      = (candidate.rows.sources[sourceId]?.bind (·.cursor)).or
          candidate.transaction.sourceCursors[sourceId]? :=
        getElem?_advanceCursors h.sources_keyed _ _
    _ = (recordedCursor candidate.published sourceId candidate.snapshotId).or
          (lastCursor session.committed session.published sourceId) := by rw [hnew, hstored]
    _ = lastCursor candidate.published (session.published ++ [candidate.snapshotId]) sourceId := by
        unfold lastCursor
        rw [List.reverse_append, List.reverse_singleton, List.singleton_append,
          List.findSome?_cons, hold]
        cases recordedCursor candidate.published sourceId candidate.snapshotId <;> rfl

/-- A publication keeps the session's invariant. -/
theorem SessionValid.publish (hs : SessionValid session)
    (h : CandidateOpen session.committed candidate)
    (hclosed : Closed candidate.transaction candidate.rows) :
    SessionValid ⟨candidate.published, none, session.published ++ [candidate.snapshotId]⟩ where
  valid := h.valid.valid_published hs.valid hclosed
  candidate candidate h := nomatch h
  published id := by
    have hmem : id ∈ candidate.published.snapshots ↔
        candidate.snapshotId = id ∨ id ∈ session.committed.snapshots := by
      rw [← ExtTreeMap.isSome_getElem?_iff_mem, getElem?_published h]
      by_cases hid : candidate.snapshotId = id
      · simp [hid]
      · rw [if_neg hid, ExtTreeMap.isSome_getElem?_iff_mem]
        simp [hid]
    rw [hmem, List.mem_append, List.mem_singleton, hs.published]
    tauto
  current := by
    show some candidate.snapshotId = (session.published ++ [candidate.snapshotId]).getLast?
    rw [List.getLast?_append_cons]
    rfl
  cursors := h.sourceCursor_published hs

end Publish

/-! ### Runs -/

/-- What an attempt can do: nothing, begin a candidate, run a statement of it, drop it, or publish
    it. -/
theorem step_cases (session : Session) (attempt : Attempt) :
    session.step attempt = session ∨
    (∃ id candidate, beginCandidate session.committed id = .ok candidate ∧
      session.step attempt = { session with candidate := some candidate }) ∨
    (∃ candidate statement fault, session.candidate = some candidate ∧
      session.step attempt =
        { session with candidate := some (candidate.attempt statement fault) }) ∨
    session.step attempt = { session with candidate := none } ∨
    ∃ candidate, session.candidate = some candidate ∧
      Closed candidate.transaction candidate.rows ∧
      session.step attempt =
        ⟨candidate.published, none, session.published ++ [candidate.snapshotId]⟩ := by
  obtain ⟨operation, fault⟩ := attempt
  cases hcandidate : session.candidate with
  | none =>
    cases operation with
    | openStore => exact Or.inl rfl
    | beginCandidate id =>
      -- a fault, or a snapshot that exists already, leaves no candidate behind
      simp only [Session.step, hcandidate]
      split
      · exact Or.inl rfl
      · cases hbegin : beginCandidate session.committed id with
        | error e => exact Or.inl rfl
        | ok candidate => exact Or.inr (Or.inl ⟨id, candidate, hbegin, rfl⟩)
    | statement statement => exact Or.inl (by simp only [Session.step, hcandidate])
    | publish => exact Or.inl (by simp only [Session.step, hcandidate])
    | abandon => exact Or.inl (by simp only [Session.step, hcandidate])
  | some candidate =>
    cases operation with
    | openStore => exact Or.inl rfl
    | beginCandidate id => exact Or.inl (by simp only [Session.step, hcandidate])
    | statement statement =>
      refine Or.inr (Or.inr (Or.inl ⟨candidate, statement, fault, rfl, ?_⟩))
      simp only [Session.step, hcandidate]
    | publish =>
      simp only [Session.step, hcandidate]
      split
      · exact Or.inr (Or.inr (Or.inr (Or.inl rfl)))
      · -- a failed check drops the transaction, like `abandon`
        cases hpublish : candidate.publish with
        | error e => exact Or.inr (Or.inr (Or.inr (Or.inl rfl)))
        | ok committed =>
          obtain ⟨hclosed, rfl⟩ := publish_eq_ok.mp hpublish
          exact Or.inr (Or.inr (Or.inr (Or.inr ⟨candidate, rfl, hclosed, rfl⟩)))
    | abandon =>
      refine Or.inr (Or.inr (Or.inr (Or.inl ?_)))
      simp only [Session.step, hcandidate]

/-- The invariant does not depend on which candidate is open, as long as it is valid. -/
theorem SessionValid.withCandidate {session : Session} (hs : SessionValid session)
    {candidate : Option CandidateSnapshot}
    (h : ∀ c, candidate = some c → CandidateOpen session.committed c) :
    SessionValid { session with candidate } :=
  ⟨hs.valid, h, hs.published, hs.current, hs.cursors⟩

/-- **Every attempt keeps the invariant**, whether it fails or not. -/
theorem SessionValid.step {session : Session} (hs : SessionValid session) (attempt : Attempt) :
    SessionValid (session.step attempt) := by
  rcases step_cases session attempt with h | ⟨id, candidate, hbegin, h⟩ |
    ⟨candidate, statement, fault, hopen, h⟩ | h | ⟨candidate, hopen, hclosed, h⟩
  · rw [h]
    exact hs
  · rw [h]
    refine hs.withCandidate (fun c hc => ?_)
    obtain rfl := Option.some.inj hc
    exact candidateOpen_begin hs.valid hbegin
  · rw [h]
    refine hs.withCandidate (fun c hc => ?_)
    obtain rfl := Option.some.inj hc
    exact (hs.candidate candidate hopen).attempt statement fault
  · rw [h]
    exact hs.withCandidate (fun c hc => nomatch hc)
  · rw [h]
    exact hs.publish (hs.candidate candidate hopen) hclosed

/-- No attempt takes back what was committed. -/
theorem SessionValid.later_step {session : Session} (hs : SessionValid session)
    (attempt : Attempt) : Later session.committed (session.step attempt).committed := by
  rcases step_cases session attempt with h | ⟨id, candidate, hbegin, h⟩ |
    ⟨candidate, statement, fault, hopen, h⟩ | h | ⟨candidate, hopen, hclosed, h⟩
  · rw [h]
    exact Later.refl _
  · rw [h]
    exact Later.refl _
  · rw [h]
    exact Later.refl _
  · rw [h]
    exact Later.refl _
  · rw [h]
    exact (hs.candidate candidate hopen).later

theorem SessionValid.run {session : Session} (hs : SessionValid session)
    (attempts : List Attempt) : SessionValid (session.run attempts) := by
  unfold Session.run
  induction attempts generalizing session with
  | nil => exact hs
  | cons attempt attempts ih =>
    rw [List.foldl_cons]
    exact ih (hs.step attempt)

theorem SessionValid.later_run {session : Session} (hs : SessionValid session)
    (attempts : List Attempt) : Later session.committed (session.run attempts).committed := by
  unfold Session.run
  induction attempts generalizing session with
  | nil => exact Later.refl _
  | cons attempt attempts ih =>
    rw [List.foldl_cons]
    exact (hs.later_step attempt).trans (ih (hs.step attempt))

/-- What every reader can rely on in a committed state. -/
structure Committed (session : Session) : Prop where
  /-- The current pointer names a published snapshot. -/
  current : ∀ id, session.committed.current = some id →
    ∃ snapshot, session.committed.snapshots[id]? = some snapshot ∧ snapshot.state = .published
  /-- No candidate is visible. -/
  visible : ∀ (id : String) snapshot, session.committed.snapshots[id]? = some snapshot →
    snapshot.state = .published
  /-- The visible snapshots are those that were published. -/
  published : ∀ id, id ∈ session.published ↔ id ∈ session.committed.snapshots
  records : ∀ (id : String) snapshot, session.committed.snapshots[id]? = some snapshot →
    ∀ recordId ∈ snapshot.recordIds, recordId ∈ session.committed.records
  edges : ∀ (id : String) snapshot, session.committed.snapshots[id]? = some snapshot →
    ∀ edgeId ∈ snapshot.edgeIds, ∃ edge, session.committed.edges[edgeId]? = some edge ∧
      edge.sourceId ∈ snapshot.recordIds ∧ edge.targetId ∈ snapshot.recordIds
  conflicts : ∀ (id : String) snapshot, session.committed.snapshots[id]? = some snapshot →
    ∀ conflict ∈ snapshot.conflicts, conflict ∈ session.committed.conflicts ∧
      conflict.leftNodeId ∈ snapshot.recordIds ∧ conflict.rightNodeId ∈ snapshot.recordIds
  cursors : ∀ sourceId, sourceCursor session.committed sourceId =
    lastCursor session.committed session.published sourceId

theorem SessionValid.committed {session : Session} (hs : SessionValid session) :
    Committed session where
  current id hid := by
    obtain ⟨snapshot, hsnapshot⟩ := Option.isSome_iff_exists.mp
      (ExtTreeMap.isSome_getElem?_iff_mem.mpr (hs.valid.current id hid))
    exact ⟨snapshot, hsnapshot, hs.valid.published id snapshot hsnapshot⟩
  visible := hs.valid.published
  published := hs.published
  records id snapshot hsnapshot := (hs.valid.stored id snapshot hsnapshot).records
  edges id snapshot hsnapshot edgeId hmem := by
    have hstored := (hs.valid.stored id snapshot hsnapshot).edges edgeId hmem
    obtain ⟨edge, hedge⟩ := Option.isSome_iff_exists.mp
      (ExtTreeMap.isSome_getElem?_iff_mem.mpr hstored)
    obtain rfl := hs.valid.edges_keyed edgeId edge hedge
    have hmember := (mem_memberEdges hs.valid.edges_keyed).mpr ⟨hmem, hedge⟩
    exact ⟨edge, hedge, (hs.valid.closed id snapshot hsnapshot).edges edge hmember⟩
  conflicts id snapshot hsnapshot conflict hmem :=
    ⟨(hs.valid.stored id snapshot hsnapshot).conflicts conflict hmem,
      (hs.valid.closed id snapshot hsnapshot).conflicts conflict hmem⟩
  cursors := hs.cursors

/-- A publication that fails before its commit leaves the older snapshot current. -/
example : (Session.fresh.run [⟨.beginCandidate "a", none⟩, ⟨.publish, none⟩,
    ⟨.beginCandidate "b", none⟩, ⟨.publish, some 3⟩]).published = ["a"] := by decide

end Rationale.Store
