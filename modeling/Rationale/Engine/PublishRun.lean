import Mathlib.Data.List.Induction
import Rationale.Engine.Publish

namespace Rationale.Engine

open Std Rationale.Library Rationale.Docs Rationale.Git Rationale.Store

/-!
# Runs of publications

A database follows a sequence of states when each of them is published in turn and is then the
current snapshot.

* `Publication`, `SameState` — one call of `publish_evidence`, and when two calls carry one state;
* `Follows` — the runs in which every publication succeeds and is then current;
* `Tracks` — what a database remembers of the publications made in it;
* `follows_iff` — a sequence is followed exactly when it never returns to an earlier state: a
  snapshot's identifier stays taken after another snapshot became current.
-/

/-- One call of `publish_evidence`. -/
structure Publication where
  evidence : PreparedEvidence
  sources : List SourceState
  historyComplete : Bool
  githubRateLimit : Option GitHubRateLimitView

namespace Publication

def snapshotId (hash : String → String) (p : Publication) : String :=
  snapshotIdOf hash p.evidence p.sources

/-- The publication succeeds and leaves this database. -/
def Publishes (hash : String → String) (db : Database) (p : Publication) (db' : Database) : Prop :=
  ∃ report, publishEvidence hash db p.evidence p.sources p.historyComplete p.githubRateLimit =
    .ok (report, db')

/-- The database after a publication under a new identifier. -/
def published (hash : String → String) (db : Database) (p : Publication) : Database :=
  withEvidence db (p.snapshotId hash) p.evidence.sorted (sortSources p.sources)

/-- The publication's sources without their observation times, by identifier. -/
def timelessSources (p : Publication) : List SourceState :=
  (sortSources p.sources).map SourceState.timeless

end Publication

/-- Publications of one state: the same evidence, and the same sources apart from the times at which
    they were observed. -/
structure SameState (p q : Publication) : Prop where
  records : values p.evidence.records = values q.evidence.records
  edges : values p.evidence.edges = values q.evidence.edges
  conflicts : p.evidence.sorted.conflicts = q.evidence.sorted.conflicts
  diagnostics : p.evidence.sorted.diagnostics = q.evidence.sorted.diagnostics
  sources : p.timelessSources = q.timelessSources

/-- Publications that agree on every identifier they share. -/
structure AgreeOnIds (p q : Publication) : Prop where
  records : ∀ a ∈ values p.evidence.records, ∀ b ∈ values q.evidence.records, a.id = b.id → a = b
  edges : ∀ a ∈ values p.evidence.edges, ∀ b ∈ values q.evidence.edges, a.id = b.id → a = b

/-- A loaded slice shows the publication's state. -/
structure ShowsEvidence (slice : GraphSlice) (p : Publication) : Prop where
  nodes : slice.nodes = values p.evidence.records
  edges : slice.edges = values p.evidence.edges
  conflicts : slice.conflicts = sortUniq compareConflicts p.evidence.sorted.conflicts
  sources : slice.sources.map SourceState.timeless =
    values (indexBy SourceState.sourceId p.timelessSources : StringMap SourceState)

/-- The publication is current: its identifier is, and the current slice is its evidence. -/
def IsCurrent (hash : String → String) (db : Database) (p : Publication) : Prop :=
  currentSnapshotId db = some (p.snapshotId hash) ∧
    ∃ limits slice, loadCurrentSlice db limits = .ok (some slice) ∧ ShowsEvidence slice p

/-- The runs from a fresh database in which every publication succeeds and is then current. -/
inductive Follows (hash : String → String) : List Publication → Database → Prop where
  | nil : Follows hash [] Database.empty
  | snoc {run : List Publication} {p : Publication} {db db' : Database}
      (h : Follows hash run db) (hpublish : p.Publishes hash db db') (hcurrent : IsCurrent hash db' p) :
      Follows hash (run ++ [p]) db'

/-- Once a state was left, no later publication has it again. -/
def NeverReturns (run : List Publication) : Prop :=
  ∀ (i j k : Nat) (p q r : Publication), i < j → j < k → run[i]? = some p → run[j]? = some q →
    run[k]? = some r → SameState p r → SameState p q

section States

variable {hash : String → String} {p q r : Publication} {db db' : Database}

theorem SameState.refl (p : Publication) : SameState p p := ⟨rfl, rfl, rfl, rfl, rfl⟩

theorem SameState.symm (h : SameState p q) : SameState q p :=
  ⟨h.records.symm, h.edges.symm, h.conflicts.symm, h.diagnostics.symm, h.sources.symm⟩

theorem SameState.trans (hpq : SameState p q) (hqr : SameState q r) : SameState p r where
  records := hpq.records.trans hqr.records
  edges := hpq.edges.trans hqr.edges
  conflicts := hpq.conflicts.trans hqr.conflicts
  diagnostics := hpq.diagnostics.trans hqr.diagnostics
  sources := hpq.sources.trans hqr.sources

/-- One state has one identifier. -/
theorem SameState.snapshotId_eq (h : SameState p q) : p.snapshotId hash = q.snapshotId hash := by
  have hsources : (sortSources p.sources).map SourceState.timeless =
      (sortSources q.sources).map SourceState.timeless := h.sources
  have hevidence : evidenceMaterial p.evidence.sorted = evidenceMaterial q.evidence.sorted := by
    have hrecords : values p.evidence.sorted.records = values q.evidence.sorted.records := h.records
    have hedges : values p.evidence.sorted.edges = values q.evidence.sorted.edges := h.edges
    unfold evidenceMaterial
    rw [hrecords, hedges, h.conflicts, h.diagnostics]
  unfold Publication.snapshotId snapshotIdOf
  rw [← @evidenceSnapshotId_timeless _ p.evidence.sorted,
    ← @evidenceSnapshotId_timeless _ q.evidence.sorted, hsources]
  unfold evidenceSnapshotId snapshotMaterial
  rw [hevidence]

theorem ShowsEvidence.congr {slice : GraphSlice} (h : ShowsEvidence slice p) (hpq : SameState p q) :
    ShowsEvidence slice q where
  nodes := h.nodes.trans hpq.records
  edges := h.edges.trans hpq.edges
  conflicts := by rw [h.conflicts, hpq.conflicts]
  sources := by rw [h.sources, hpq.sources]

theorem IsCurrent.congr (h : IsCurrent hash db p) (hpq : SameState p q) : IsCurrent hash db q := by
  obtain ⟨hid, limits, slice, hload, hshows⟩ := h
  exact ⟨hpq.snapshotId_eq ▸ hid, limits, slice, hload, hshows.congr hpq⟩

/-- **One publication**: reuse the current snapshot, or publish under a new identifier. -/
theorem publishes_iff :
    p.Publishes hash db db' ↔
      db.current = some (p.snapshotId hash) ∧ db' = db ∨
      db.current ≠ some (p.snapshotId hash) ∧ p.snapshotId hash ∉ db.snapshots ∧
        Consistent db p.evidence ∧ db' = p.published hash db := by
  unfold Publication.Publishes publishEvidence
  by_cases hcurrent : db.current = some (p.snapshotId hash)
  · have hif : currentSnapshotId db =
        some (evidenceSnapshotId hash p.evidence.sorted (sortSources p.sources)) := hcurrent
    simp only [if_pos hif]
    constructor
    · rintro ⟨report, h⟩
      exact Or.inl ⟨hcurrent, (Prod.mk.inj (Except.ok.inj h)).2.symm⟩
    · rintro (⟨-, rfl⟩ | ⟨hne, -⟩)
      · exact ⟨_, rfl⟩
      · exact absurd hcurrent hne
  · have hif : ¬ currentSnapshotId db =
        some (evidenceSnapshotId hash p.evidence.sorted (sortSources p.sources)) := hcurrent
    -- sorting diagnostics and conflicts does not touch what the store compares
    have hsorted : Consistent db p.evidence.sorted ↔ Consistent db p.evidence :=
      ⟨fun h => ⟨h.records, h.edges⟩, fun h => ⟨h.records, h.edges⟩⟩
    have hok := @publishCandidate_eq_ok db db' (p.snapshotId hash) p.evidence.sorted
      (sortSources p.sources)
    rw [hsorted] at hok
    simp only [if_neg hif]
    constructor
    · rintro ⟨report, h⟩
      obtain ⟨published, hpublished, heq⟩ := map_eq_ok.mp h
      obtain ⟨-, rfl⟩ := Prod.mk.inj heq
      exact Or.inr ⟨hcurrent, hok.mp (mapError_eq_ok.mp hpublished)⟩
    · rintro (⟨heq, -⟩ | ⟨-, hnew⟩)
      · exact absurd heq hcurrent
      · exact ⟨_, map_eq_ok.mpr ⟨db', mapError_eq_ok.mpr (hok.mpr hnew), rfl⟩⟩

/-- What was published is current. -/
theorem isCurrent_published (h : Consistent db p.evidence) :
    IsCurrent hash (p.published hash db) p := by
  have hsorted : Consistent db p.evidence.sorted := ⟨h.records, h.edges⟩
  obtain ⟨limits, hload⟩ := exists_loadCurrentSlice
    (@currentSlice_withEvidence db (p.snapshotId hash) p.evidence.sorted (sortSources p.sources)
      hsorted)
  exact ⟨rfl, limits, _, hload, rfl, rfl, rfl, map_values_indexBy (fun _ => rfl)⟩

end States

/-! ### What a database remembers -/

/-- The database holds what was published in it, and the last publication is current. -/
structure Tracks (hash : String → String) (run : List Publication) (db : Database) : Prop where
  records : ∀ (k : String) a, db.records[k]? = some a → ∃ p ∈ run, a ∈ values p.evidence.records
  edges : ∀ (k : String) a, db.edges[k]? = some a → ∃ p ∈ run, a ∈ values p.evidence.edges
  stored_records : ∀ p ∈ run, ∀ a ∈ values p.evidence.records, db.records[a.id]? = some a
  stored_edges : ∀ p ∈ run, ∀ a ∈ values p.evidence.edges, db.edges[a.id]? = some a
  records_keyed : KeyedBy EvidenceNode.id db.records
  edges_keyed : KeyedBy EvidenceEdge.id db.edges
  snapshots : ∀ id, id ∈ db.snapshots ↔ ∃ p ∈ run, p.snapshotId hash = id
  current : db.current = run.getLast?.map (·.snapshotId hash)
  shows : ∀ p, run.getLast? = some p → IsCurrent hash db p

section Tracking

variable {hash : String → String} {run : List Publication} {p : Publication} {db db' : Database}

theorem tracks_empty : Tracks hash [] Database.empty where
  records k a h := by simp [Database.empty] at h
  edges k a h := by simp [Database.empty] at h
  stored_records p hp := absurd hp List.not_mem_nil
  stored_edges p hp := absurd hp List.not_mem_nil
  records_keyed := keyedBy_empty
  edges_keyed := keyedBy_empty
  snapshots id := by simp [Database.empty]
  current := rfl
  shows p h := by simp at h

/-- Evidence that agrees with all earlier evidence agrees with the tables. -/
theorem Tracks.consistent (h : Tracks hash run db) (hagree : ∀ q ∈ run, AgreeOnIds q p) :
    Consistent db p.evidence where
  records := by
    intro node hnode other hother
    obtain ⟨q, hq, hmem⟩ := h.records _ _ hother
    exact (hagree q hq).records other hmem node hnode (h.records_keyed _ _ hother)
  edges := by
    intro edge hedge other hother
    obtain ⟨q, hq, hmem⟩ := h.edges _ _ hother
    exact (hagree q hq).edges other hmem edge hedge (h.edges_keyed _ _ hother)

/-- **One step of a run**, where evidence agrees and identifiers are free of collisions: it succeeds
    exactly when the state is that of the last publication, or that of none. -/
theorem Tracks.publishes_iff (h : Tracks hash run db) (hagree : ∀ q ∈ run, AgreeOnIds q p)
    (hcollision : ∀ q ∈ run, q.snapshotId hash = p.snapshotId hash → SameState q p) :
    (∃ db', p.Publishes hash db db' ∧ IsCurrent hash db' p) ↔
      (∃ q, run.getLast? = some q ∧ SameState q p) ∨ ∀ q ∈ run, ¬ SameState q p := by
  have hid : p.snapshotId hash ∈ db.snapshots ↔ ∃ q ∈ run, SameState q p := by
    rw [h.snapshots]
    exact exists_congr (fun q => and_congr_right (fun hq =>
      ⟨hcollision q hq, SameState.snapshotId_eq⟩))
  have hlast : db.current = some (p.snapshotId hash) ↔
      ∃ q, run.getLast? = some q ∧ SameState q p := by
    rw [h.current, Option.map_eq_some_iff]
    refine exists_congr (fun q => and_congr_right (fun hq => ?_))
    exact ⟨hcollision q (List.mem_of_getLast? hq), SameState.snapshotId_eq⟩
  simp only [Engine.publishes_iff]
  constructor
  · -- the state was reused or was new; a stored one that is not current is refused
    rintro ⟨db', ⟨hcurrent, -⟩ | ⟨-, hnew, -⟩, -⟩
    · exact Or.inl (hlast.mp hcurrent)
    · rw [hid] at hnew
      exact Or.inr (fun q hq hsame => hnew ⟨q, hq, hsame⟩)
  · rintro (hsame | hnone)
    · obtain ⟨q, hq, hqp⟩ := hsame
      exact ⟨db, Or.inl ⟨hlast.mpr ⟨q, hq, hqp⟩, rfl⟩, (h.shows q hq).congr hqp⟩
    · have hconsistent := h.consistent hagree
      have hnew : p.snapshotId hash ∉ db.snapshots := by
        rw [hid]
        exact fun ⟨q, hq, hsame⟩ => hnone q hq hsame
      have hother : db.current ≠ some (p.snapshotId hash) := by
        rw [Ne, hlast]
        exact fun ⟨q, hq, hsame⟩ => hnone q (List.mem_of_getLast? hq) hsame
      exact ⟨_, Or.inr ⟨hother, hnew, hconsistent, rfl⟩, isCurrent_published hconsistent⟩

/-- A current publication is stored. -/
theorem IsCurrent.stored (h : IsCurrent hash db p) (hrecords : KeyedBy EvidenceNode.id db.records)
    (hedges : KeyedBy EvidenceEdge.id db.edges) :
    (∀ a ∈ values p.evidence.records, db.records[a.id]? = some a) ∧
      ∀ a ∈ values p.evidence.edges, db.edges[a.id]? = some a := by
  obtain ⟨hid, limits, slice, hload, hshows⟩ := h
  obtain ⟨-, -, -, heq⟩ := (loadCurrentSlice_eq_ok hid).mp hload
  obtain rfl := Option.some.inj heq
  refine ⟨fun a ha => ?_, fun a ha => ?_⟩
  · rw [← hshows.nodes] at ha
    exact ((mem_memberRecords hrecords).mp ha).2
  · rw [← hshows.edges] at ha
    exact ((mem_memberEdges hedges).mp ha).2

/-- The tables only grow. -/
theorem Publication.Publishes.grows (h : p.Publishes hash db db')
    (hrecords : KeyedBy EvidenceNode.id db.records) (hedges : KeyedBy EvidenceEdge.id db.edges) :
    KeyedBy EvidenceNode.id db'.records ∧ KeyedBy EvidenceEdge.id db'.edges ∧
      (∀ (k : String) a, db.records[k]? = some a → db'.records[k]? = some a) ∧
      ∀ (k : String) a, db.edges[k]? = some a → db'.edges[k]? = some a := by
  rcases Engine.publishes_iff.mp h with ⟨-, rfl⟩ | ⟨-, -, -, rfl⟩
  · exact ⟨hrecords, hedges, fun _ _ ha => ha, fun _ _ ha => ha⟩
  · refine ⟨hrecords.insertNewAll, hedges.insertNewAll, fun k a ha => ?_, fun k a ha => ?_⟩
    · exact (getElem?_insertNewAll k).trans (by rw [ha]; rfl)
    · exact (getElem?_insertNewAll k).trans (by rw [ha]; rfl)

section Table

variable {α : Type} {key : α → String} {items : Publication → List α}
  {table table' : ExtTreeMap String α}

/-- What a run has published stays in a table that grows. -/
theorem stored_concat (hold : ∀ q ∈ run, ∀ a ∈ items q, table[key a]? = some a)
    (hgrows : ∀ (k : String) a, table[k]? = some a → table'[k]? = some a)
    (hnew : ∀ a ∈ items p, table'[key a]? = some a) :
    ∀ q ∈ run ++ [p], ∀ a ∈ items q, table'[key a]? = some a := by
  intro q hq a ha
  rcases List.mem_append.mp hq with hq | hq
  · exact hgrows _ a (hold q hq a ha)
  · obtain rfl := List.mem_singleton.mp hq
    exact hnew a ha

/-- What is in a table after an insertion comes from the run. -/
theorem origin_concat (hold : ∀ (k : String) a, table[k]? = some a → ∃ q ∈ run, a ∈ items q)
    (k : String) (a : α) (h : (insertNewAll key table (items p))[k]? = some a) :
    ∃ q ∈ run ++ [p], a ∈ items q := by
  rcases mem_or_of_getElem?_insertNewAll h with h | ⟨-, hmem, -⟩
  · obtain ⟨q, hq, hmem⟩ := hold k a h
    exact ⟨q, List.mem_append_left _ hq, hmem⟩
  · exact ⟨p, List.mem_append_right _ (List.mem_singleton_self p), hmem⟩

end Table

theorem exists_mem_concat {good : Publication → Prop} :
    (∃ q ∈ run ++ [p], good q) ↔ (∃ q ∈ run, good q) ∨ good p := by
  simp only [List.mem_append, List.mem_singleton, or_and_right, exists_or, exists_eq_left]

/-- After a step the database remembers it. -/
theorem Tracks.snoc (h : Tracks hash run db) (hpublish : p.Publishes hash db db')
    (hcurrent : IsCurrent hash db' p) : Tracks hash (run ++ [p]) db' := by
  have hshows : ∀ q, (run ++ [p]).getLast? = some q → IsCurrent hash db' q := by
    intro q hq
    obtain rfl : p = q := by simpa using hq
    exact hcurrent
  obtain ⟨hrecords, hedges, hgrowRecords, hgrowEdges⟩ :=
    hpublish.grows h.records_keyed h.edges_keyed
  obtain ⟨hnewRecords, hnewEdges⟩ := hcurrent.stored hrecords hedges
  have hstoredRecords := stored_concat h.stored_records hgrowRecords hnewRecords
  have hstoredEdges := stored_concat h.stored_edges hgrowEdges hnewEdges
  rcases Engine.publishes_iff.mp hpublish with ⟨hid, rfl⟩ | ⟨-, -, -, rfl⟩
  · -- the database is unchanged, and its current snapshot is among its snapshots
    have hmem : p.snapshotId hash ∈ db'.snapshots := by
      rw [h.current] at hid
      obtain ⟨q, hq, heq⟩ := Option.map_eq_some_iff.mp hid
      exact (h.snapshots _).mpr ⟨q, List.mem_of_getLast? hq, heq⟩
    refine ⟨fun k a ha => ?_, fun k a ha => ?_, hstoredRecords, hstoredEdges, hrecords, hedges,
      fun id => ?_, ?_, hshows⟩
    · exact exists_mem_concat.mpr (Or.inl (h.records k a ha))
    · exact exists_mem_concat.mpr (Or.inl (h.edges k a ha))
    · rw [exists_mem_concat, ← h.snapshots]
      exact ⟨Or.inl, fun hor => hor.elim (fun h => h) (fun heq => heq ▸ hmem)⟩
    · rw [hid, List.getLast?_concat]
      rfl
  · -- a new snapshot: its rows are those of `p`, and it becomes current
    refine ⟨origin_concat h.records, origin_concat h.edges, hstoredRecords, hstoredEdges, hrecords,
      hedges, fun id => ?_, ?_, hshows⟩
    · rw [exists_mem_concat, ← h.snapshots]
      show id ∈ db.snapshots.insert (p.snapshotId hash) _ ↔ _
      rw [ExtTreeMap.mem_insert, Std.compare_eq_iff_eq, or_comm]
    · rw [List.getLast?_concat]
      rfl

theorem Follows.tracks (h : Follows hash run db) : Tracks hash run db := by
  induction h with
  | nil => exact tracks_empty
  | snoc _ hpublish hcurrent ih => exact ih.snoc hpublish hcurrent

/-! ### Whole runs -/

theorem follows_concat : Follows hash (run ++ [p]) db' ↔
    ∃ db, Follows hash run db ∧ p.Publishes hash db db' ∧ IsCurrent hash db' p := by
  constructor
  · intro h
    generalize heq : run ++ [p] = run' at h
    cases h with
    | nil => exact absurd heq (by simp)
    | snoc h hpublish hcurrent =>
      obtain ⟨rfl, hlast⟩ := List.append_inj' heq rfl
      obtain rfl := List.singleton_inj.mp hlast
      exact ⟨_, h, hpublish, hcurrent⟩
  · rintro ⟨db, h, hpublish, hcurrent⟩
    exact h.snoc hpublish hcurrent

/-- One more state: it is the last one again, or it is new. -/
theorem neverReturns_concat :
    NeverReturns (run ++ [p]) ↔ NeverReturns run ∧
      ((∃ q, run.getLast? = some q ∧ SameState q p) ∨ ∀ q ∈ run, ¬ SameState q p) := by
  have hold : ∀ {i : Nat} {q : Publication}, run[i]? = some q → (run ++ [p])[i]? = some q := by
    intro i q hq
    rw [List.getElem?_append_left (List.getElem?_eq_some_iff.mp hq).1]
    exact hq
  have hnew : (run ++ [p])[run.length]? = some p := List.getElem?_concat_length
  constructor
  · intro h
    refine ⟨fun i j k a b c hij hjk ha hb hc => h i j k a b c hij hjk (hold ha) (hold hb) (hold hc),
      ?_⟩
    by_cases hseen : ∃ q ∈ run, SameState q p
    · obtain ⟨q, hq, hqp⟩ := hseen
      obtain ⟨i, hi⟩ := List.getElem?_of_mem hq
      have hlt : i < run.length := (List.getElem?_eq_some_iff.mp hi).1
      have hne : run ≠ [] := List.ne_nil_of_mem hq
      refine Or.inl ⟨run.getLast hne, List.getLast?_eq_some_getLast hne, ?_⟩
      have hlast : run[run.length - 1]? = some (run.getLast hne) := by
        rw [← List.getLast?_eq_getElem?]
        exact List.getLast?_eq_some_getLast hne
      -- seen before the last state: then the last state is the same, or the run has returned
      rcases Nat.lt_or_ge i (run.length - 1) with hbefore | hge
      · have hsame := h i (run.length - 1) run.length q _ p hbefore (by omega) (hold hi)
          (hold hlast) hnew hqp
        exact hsame.symm.trans hqp
      · obtain rfl : i = run.length - 1 := by omega
        rw [hi] at hlast
        rwa [← Option.some.inj hlast]
    · exact Or.inr (fun q hq hqp => hseen ⟨q, hq, hqp⟩)
  · rintro ⟨h, hlast⟩ i j k a b c hij hjk ha hb hc hac
    have hk : k < (run ++ [p]).length := (List.getElem?_eq_some_iff.mp hc).1
    rw [List.length_append, List.length_singleton] at hk
    rw [List.getElem?_append_left (by omega)] at ha hb
    -- the third index decides: inside the run, or the new state
    rcases Nat.lt_succ_iff_lt_or_eq.mp hk with hlt | rfl
    · rw [List.getElem?_append_left hlt] at hc
      exact h i j k a b c hij hjk ha hb hc hac
    · obtain rfl : p = c := Option.some.inj (hnew.symm.trans hc)
      rcases hlast with ⟨q, hq, hqp⟩ | hnone
      · rw [List.getLast?_eq_getElem?] at hq
        rcases Nat.lt_or_ge j (run.length - 1) with hbefore | hge
        · exact h i j _ a b q hij hbefore ha hb hq (hac.trans hqp.symm)
        · obtain rfl : j = run.length - 1 := by omega
          obtain rfl : q = b := Option.some.inj (hq.symm.trans hb)
          exact hac.trans hqp.symm
      · exact absurd hac (hnone a (List.mem_of_getElem? ha))

/-- **Runs of publications.** When all evidence agrees on shared identifiers and different states
    have different snapshot identifiers, a database follows a sequence of states exactly when the
    sequence never returns to a state it left. -/
theorem follows_iff (hagree : run.Pairwise AgreeOnIds)
    (hcollision : ∀ p ∈ run, ∀ q ∈ run, p.snapshotId hash = q.snapshotId hash → SameState p q) :
    (∃ db, Follows hash run db) ↔ NeverReturns run := by
  induction run using List.reverseRecOn with
  | nil =>
    refine ⟨fun _ i j k p q r _ _ hp => ?_, fun _ => ⟨_, Follows.nil⟩⟩
    simp at hp
  | append_singleton run p ih =>
    rw [List.pairwise_append] at hagree
    obtain ⟨hrun, -, hlast⟩ := hagree
    have ih := ih hrun (fun a ha b hb =>
      hcollision a (List.mem_append_left _ ha) b (List.mem_append_left _ hb))
    have hagree' : ∀ q ∈ run, AgreeOnIds q p := fun q hq => hlast q hq p (List.mem_singleton_self p)
    have hcollision' : ∀ q ∈ run, q.snapshotId hash = p.snapshotId hash → SameState q p :=
      fun q hq => hcollision q (List.mem_append_left _ hq) p
        (List.mem_append_right _ (List.mem_singleton_self p))
    rw [neverReturns_concat, ← ih]
    constructor
    · rintro ⟨db', h⟩
      obtain ⟨db, hfollows, hstep⟩ := follows_concat.mp h
      exact ⟨⟨db, hfollows⟩, (hfollows.tracks.publishes_iff hagree' hcollision').mp ⟨db', hstep⟩⟩
    · rintro ⟨⟨db, hfollows⟩, hstates⟩
      obtain ⟨db', hpublish, hcurrent⟩ :=
        (hfollows.tracks.publishes_iff hagree' hcollision').mpr hstates
      exact ⟨db', Follows.snoc hfollows hpublish hcurrent⟩

end Tracking

/-! ### Two states of a repository -/

/-- The publication of a history without documents. -/
def historyPublication (commits : List CommitEvidence) : Publication where
  evidence := prepareEvidence id (fun _ => none) commits ⟨[], [], [], []⟩ []
  sources := [⟨"git:local", .git, .fresh, "", some ((commits.map (·.id)).headD "")⟩]
  historyComplete := true
  githubRateLimit := none

/-- The branch `main`, with one commit. -/
def mainBranch : Publication := historyPublication [⟨"a", "First", 0, []⟩]

/-- The branch `work`, one commit ahead of `main`. -/
def workBranch : Publication := historyPublication [⟨"b", "Second", 1, []⟩, ⟨"a", "First", 0, []⟩]

theorem agreeOnIds_branches :
    AgreeOnIds mainBranch mainBranch ∧ AgreeOnIds mainBranch workBranch := by
  refine ⟨⟨?_, ?_⟩, ⟨?_, ?_⟩⟩ <;> decide

set_option maxRecDepth 2000

theorem snapshotId_branches : mainBranch.snapshotId id ≠ workBranch.snapshotId id := by
  decide

/-- Publications of the two branches carry one state when they have one identifier. -/
theorem sameState_branches {run : List Publication}
    (hrun : ∀ p ∈ run, p = mainBranch ∨ p = workBranch) :
    ∀ p ∈ run, ∀ q ∈ run, p.snapshotId id = q.snapshotId id → SameState p q := by
  intro p hp q hq heq
  rcases hrun p hp with rfl | rfl <;> rcases hrun q hq with rfl | rfl
  · exact SameState.refl _
  · exact absurd heq snapshotId_branches
  · exact absurd heq.symm snapshotId_branches
  · exact SameState.refl _

/-- A database follows the move from `main` to `work`. -/
theorem follows_iff_branches :
    ∃ db, Follows id [mainBranch, mainBranch, workBranch] db := by
  have hagree : [mainBranch, mainBranch, workBranch].Pairwise AgreeOnIds := by
    simp [agreeOnIds_branches]
  have hcollision := @sameState_branches [mainBranch, mainBranch, workBranch] (by simp)
  refine (follows_iff hagree hcollision).mpr ?_
  intro i j k p q r hij hjk hp hq hr hpr
  have hk : k < 3 := (List.getElem?_eq_some_iff.mp hr).1
  obtain ⟨rfl, rfl, rfl⟩ : i = 0 ∧ j = 1 ∧ k = 2 := by omega
  obtain rfl : mainBranch = p := Option.some.inj hp
  obtain rfl : mainBranch = q := Option.some.inj hq
  exact SameState.refl _

/-- **Switching branch and back**: the second publication of `main` fails, though the two states
    agree on shared identifiers and have different snapshot identifiers. -/
theorem not_follows_branch_and_back :
    AgreeOnIds mainBranch workBranch ∧ mainBranch.snapshotId id ≠ workBranch.snapshotId id ∧
      (∃ db, Follows id [mainBranch, workBranch] db) ∧
      ¬ ∃ db, Follows id [mainBranch, workBranch, mainBranch] db := by
  have hother : ¬ SameState workBranch mainBranch := fun h => snapshotId_branches h.snapshotId_eq.symm
  refine ⟨agreeOnIds_branches.2, snapshotId_branches, ?_, ?_⟩
  · -- there: two different states, each published once
    obtain ⟨first, hpublish, hcurrent⟩ := (@tracks_empty id).publishes_iff (p := mainBranch)
      (by simp) (by simp) |>.mpr (Or.inr (by simp))
    have hfirst : Follows id [mainBranch] first := Follows.nil.snoc hpublish hcurrent
    obtain ⟨second, hpublish, hcurrent⟩ := (hfirst.tracks.publishes_iff (p := workBranch)
      (by simp [agreeOnIds_branches]) (by simp [snapshotId_branches])).mpr
        (Or.inr (by simpa using fun h => hother h.symm))
    exact ⟨second, hfirst.snoc hpublish hcurrent⟩
  · rintro ⟨db', h⟩
    -- and back: the identifier is stored but not current
    obtain ⟨db, hfollows, hstep⟩ :=
      (@follows_concat id [mainBranch, workBranch] mainBranch db').mp h
    have hagree : ∀ q ∈ [mainBranch, workBranch], AgreeOnIds q mainBranch := by
      intro q hq
      rcases List.mem_pair.mp hq with rfl | rfl
      · exact agreeOnIds_branches.1
      · exact ⟨by decide, by decide⟩
    have hcollision : ∀ q ∈ [mainBranch, workBranch],
        q.snapshotId id = mainBranch.snapshotId id → SameState q mainBranch := by
      intro q hq heq
      rcases List.mem_pair.mp hq with rfl | rfl
      · exact SameState.refl _
      · exact absurd heq.symm snapshotId_branches
    rcases (hfollows.tracks.publishes_iff hagree hcollision).mp ⟨db', hstep⟩ with
      ⟨q, hq, hsame⟩ | hnone
    · obtain rfl : workBranch = q := Option.some.inj hq
      exact hother hsame
    · exact hnone mainBranch (by simp) (SameState.refl _)

end Rationale.Engine
