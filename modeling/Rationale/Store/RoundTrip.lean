import Rationale.Store.Session

namespace Rationale.Store

open Std Relation Rationale.Library

/-!
# Publish, then load

Evidence that is inserted into a candidate and published is read back as it was, in canonical order,
whatever the order of the insertions and whatever earlier snapshots stored.

* `Contents` — what a snapshot is to hold;
* `Fills` — the sequences of statements that insert exactly this, records first;
* `Contents.Presents` — a slice that shows exactly this, in canonical order;
* `along_accepted` — every statement of such a sequence is accepted;
* `Filled` — the tables afterwards;
* `publish_load` — the round trip.
-/

/-- Evidence with distinct keys and no reference out of it. -/
structure Contents where
  nodes : List EvidenceNode
  edges : List EvidenceEdge
  conflicts : List Conflict
  sources : List SourceState
  diagnostics : List QuarantineDiagnostic
  nodes_distinct : nodes.Pairwise (fun a b => a.id ≠ b.id)
  edges_distinct : edges.Pairwise (fun a b => a.id ≠ b.id)
  conflicts_distinct : conflicts.Nodup
  sources_distinct : sources.Pairwise (fun a b => a.sourceId ≠ b.sourceId)
  edges_closed : ∀ edge ∈ edges,
    (∃ node ∈ nodes, node.id = edge.sourceId) ∧ ∃ node ∈ nodes, node.id = edge.targetId
  conflicts_closed : ∀ conflict ∈ conflicts,
    (∃ node ∈ nodes, node.id = conflict.leftNodeId) ∧ ∃ node ∈ nodes, node.id = conflict.rightNodeId

/-- Whatever is stored under the identifiers of the contents has the same content.  (A conflict is
    its own key.) -/
structure Contents.AgreesWith (contents : Contents) (db : Database) : Prop where
  nodes : ∀ node ∈ contents.nodes, Agrees EvidenceNode.id db.records node
  edges : ∀ edge ∈ contents.edges, Agrees EvidenceEdge.id db.edges edge

/-- The contents are within the limits of a read. -/
structure Contents.Within (contents : Contents) (limits : SliceLimits) : Prop where
  nodes : contents.nodes.length ≤ limits.maxNodes
  edges : contents.edges.length ≤ limits.maxEdges
  conflicts : contents.conflicts.length ≤ limits.maxConflicts

/-- The identifiers of the records that a statement inserts. -/
def Statement.provides (statement : Statement) : List String :=
  (statement.node?.map (·.id)).toList

/-- Statements that insert exactly the contents: every item at least once and nothing else, every
    record before the edges and conflicts that mention it, and the diagnostics once each. -/
structure Fills (contents : Contents) (statements : List Statement) : Prop where
  node : ∀ node, .record node ∈ statements ↔ node ∈ contents.nodes
  edge : ∀ edge, .edge edge ∈ statements ↔ edge ∈ contents.edges
  conflict : ∀ conflict, .conflict conflict ∈ statements ↔ conflict ∈ contents.conflicts
  source : ∀ source, .source source ∈ statements ↔ source ∈ contents.sources
  diagnostics : statements.filterMap Statement.diagnostic? = contents.diagnostics
  recordsFirst : Along (fun inserted statement => statement.provides ++ inserted)
    (fun inserted statement => ∀ id ∈ statement.mentions, id ∈ inserted) [] statements

/-- The slice shows exactly the contents, each kind in its canonical order. -/
structure Contents.Presents (contents : Contents) (slice : GraphSlice) : Prop where
  nodes : slice.nodes.Perm contents.nodes
  nodes_sorted : slice.nodes.Pairwise (fun a b => compare a.id b.id = .lt)
  edges : slice.edges.Perm contents.edges
  edges_sorted : slice.edges.Pairwise (fun a b => compare a.id b.id = .lt)
  conflicts : slice.conflicts.Perm contents.conflicts
  conflicts_sorted : slice.conflicts.Pairwise (fun a b => compareConflicts a b = .lt)
  sources : slice.sources.Perm contents.sources
  sources_sorted : slice.sources.Pairwise (fun a b => compare a.sourceId b.sourceId = .lt)

/-! ### The columns of a source -/

/-- The columns of `snapshot_sources` next to the snapshot's identifier. -/
structure SourceRow where
  sourceId : String
  sourceKind : String
  freshness : String
  observedAt : String
  cursor : Option String
  deriving DecidableEq, Repr

def sourceKindName : SourceKind → String
  | .git => "git"
  | .github => "github"
  | .document => "document"
  | .verification => "verification"
  | .synthetic => "synthetic"

def parseSourceKind (value : String) : Except StoreError SourceKind :=
  if value = "git" then .ok .git
  else if value = "github" then .ok .github
  else if value = "document" then .ok .document
  else if value = "verification" then .ok .verification
  else if value = "synthetic" then .ok .synthetic
  else .error (.database s!"unknown variant {value}")

def Freshness.asStr : Freshness → String
  | .fresh => "fresh"
  | .stale => "stale"

def Freshness.fromStr (value : String) : Except StoreError Freshness :=
  if value = "fresh" then .ok .fresh
  else if value = "stale" then .ok .stale
  else .error (.database s!"unknown freshness {value}")

/-- The columns that `set_source_state` writes. -/
def SourceState.row (source : SourceState) : SourceRow :=
  ⟨source.sourceId, sourceKindName source.sourceKind, source.freshness.asStr, source.observedAt,
    source.cursor⟩

/-- The source state that `load_sources` reads from its columns. -/
def SourceRow.state (row : SourceRow) : Except StoreError SourceState := do
  let sourceKind ← parseSourceKind row.sourceKind
  let freshness ← Freshness.fromStr row.freshness
  return ⟨row.sourceId, sourceKind, freshness, row.observedAt, row.cursor⟩

/-- Every source state comes back from its columns. -/
theorem SourceRow.state_row (source : SourceState) : source.row.state = .ok source := by
  obtain ⟨id, kind, freshness, observedAt, cursor⟩ := source
  cases kind <;> cases freshness <;> rfl

/-- So `loadSources` reads what the columns hold. -/
theorem mapM_state_row (sources : List SourceState) :
    (sources.map SourceState.row).mapM SourceRow.state = .ok sources := by
  induction sources with
  | nil => rfl
  | cons source sources ih =>
    rw [List.map_cons, List.mapM_cons, SourceRow.state_row, ih]
    rfl

/-! ### Items of a list of statements -/

/-- Collecting the items of one kind finds those whose statement is in the list. -/
theorem mem_filterMap_item {α : Type} {item? : Statement → Option α} {make : α → Statement}
    (hitem : ∀ statement a, item? statement = some a ↔ statement = make a)
    {statements : List Statement} {a : α} :
    a ∈ statements.filterMap item? ↔ make a ∈ statements := by
  simp only [List.mem_filterMap, hitem]
  constructor
  · rintro ⟨_, hmem, rfl⟩
    exact hmem
  · exact fun h => ⟨_, h, rfl⟩

theorem node?_eq_some (statement : Statement) (node : EvidenceNode) :
    statement.node? = some node ↔ statement = .record node := by
  cases statement <;> simp [Statement.node?]

theorem edge?_eq_some (statement : Statement) (edge : EvidenceEdge) :
    statement.edge? = some edge ↔ statement = .edge edge := by
  cases statement <;> simp [Statement.edge?]

theorem conflict?_eq_some (statement : Statement) (conflict : Conflict) :
    statement.conflict? = some conflict ↔ statement = .conflict conflict := by
  cases statement <;> simp [Statement.conflict?]

theorem source?_eq_some (statement : Statement) (source : SourceState) :
    statement.source? = some source ↔ statement = .source source := by
  cases statement <;> simp [Statement.source?]

/-- Items with distinct keys are known by their keys. -/
theorem eq_of_pairwise_key_ne {α : Type} {key : α → String} {l : List α}
    (hl : l.Pairwise (fun a b => key a ≠ key b)) :
    ∀ a ∈ l, ∀ b ∈ l, key a = key b → a = b := by
  rw [← List.pairwise_map] at hl
  exact fun _ ha _ hb => List.inj_on_of_nodup_map hl ha hb

/-! ### Acceptance -/

section Accept

variable {contents : Contents}

/-- Storing one of the contents keeps the agreement with all of them. -/
theorem agrees_insertIfNew_of_distinct {α : Type} {key : α → String} {stored : StringMap α}
    {l : List α} (hl : l.Pairwise (fun a b => key a ≠ key b)) {a : α} (ha : a ∈ l)
    (h : ∀ b ∈ l, Agrees key stored b) :
    ∀ b ∈ l, Agrees key (stored.insertIfNew (key a) a) b := by
  intro b hb
  by_cases heq : key a = key b
  · -- the item itself: its key now holds it, or held it before
    obtain rfl := eq_of_pairwise_key_ne hl a ha b hb heq
    intro other hother
    rw [getElem?_insertIfNew_self_iff.mpr (h a ha)] at hother
    exact (Option.some.inj hother).symm
  · exact (agrees_insertIfNew_iff heq).mpr (h b hb)

/-- What holds while the contents are inserted: the records inserted so far are stored, and the
    tables agree with all contents. -/
structure Filling (contents : Contents) (inserted : List String) (candidate : CandidateSnapshot) :
    Prop where
  stored : ∀ id ∈ inserted, id ∈ candidate.transaction.records
  nodes : ∀ node ∈ contents.nodes, Agrees EvidenceNode.id candidate.transaction.records node
  edges : ∀ edge ∈ contents.edges, Agrees EvidenceEdge.id candidate.transaction.edges edge

variable {statements : List Statement}

/-- A statement of the contents whose records are inserted is accepted. -/
theorem Filling.accepted (hfills : Fills contents statements) {statement : Statement}
    (hmem : statement ∈ statements) {inserted : List String} {candidate : CandidateSnapshot}
    (h : Filling contents inserted candidate)
    (hmentions : ∀ id ∈ statement.mentions, id ∈ inserted) : candidate.Accepted statement := by
  have hstored := fun id hid => h.stored id (hmentions id hid)
  cases statement with
  | record node => exact h.nodes node ((hfills.node node).mp hmem)
  | edge edge =>
    have hends : edge.sourceId ∈ candidate.transaction.records ∧
        edge.targetId ∈ candidate.transaction.records := by
      simpa [Statement.mentions] using hstored
    exact ⟨h.edges edge ((hfills.edge edge).mp hmem), Or.inr hends⟩
  | conflict conflict =>
    have hends : conflict.leftNodeId ∈ candidate.transaction.records ∧
        conflict.rightNodeId ∈ candidate.transaction.records := by
      simpa [Statement.mentions] using hstored
    exact Or.inr hends
  | source source => trivial
  | diagnostic diagnostic => trivial

/-- Each statement of the contents keeps `Filling`. -/
theorem Filling.effect (hfills : Fills contents statements) {statement : Statement}
    (hmem : statement ∈ statements) {inserted : List String} {candidate : CandidateSnapshot}
    (h : Filling contents inserted candidate) :
    Filling contents (statement.provides ++ inserted) (candidate.effect statement) := by
  cases statement with
  | record node =>
    refine ⟨fun id hid => ?_, ?_, h.edges⟩
    · show id ∈ candidate.transaction.records.insertIfNew node.id node
      rw [ExtTreeMap.mem_insertIfNew]
      have hid' : id = node.id ∨ id ∈ inserted := by
        simpa [Statement.provides, Statement.node?] using hid
      rcases hid' with rfl | hid'
      · exact Or.inl (Std.compare_eq_iff_eq.mpr rfl)
      · exact Or.inr (h.stored id hid')
    · have hnode := (hfills.node node).mp hmem
      exact agrees_insertIfNew_of_distinct contents.nodes_distinct hnode h.nodes
  | edge edge =>
    have hedge := (hfills.edge edge).mp hmem
    exact ⟨h.stored, h.nodes, agrees_insertIfNew_of_distinct contents.edges_distinct hedge h.edges⟩
  | conflict conflict => exact ⟨h.stored, h.nodes, h.edges⟩
  | source source => exact ⟨h.stored, h.nodes, h.edges⟩
  | diagnostic diagnostic => exact ⟨h.stored, h.nodes, h.edges⟩

/-- **Every statement is accepted** when the contents agree with what is stored. -/
theorem along_accepted {db : Database} (hagrees : contents.AgreesWith db)
    (hfills : Fills contents statements) (id : String) :
    Along CandidateSnapshot.effect CandidateSnapshot.Accepted ⟨db, id, Snapshot.candidate⟩
      statements := by
  refine along_of_simulation (R := Filling contents) ?_ ⟨?_, hagrees.nodes, hagrees.edges⟩
    hfills.recordsFirst
  · intro statement hmem inserted candidate h hmentions
    exact ⟨h.accepted hfills hmem hmentions, h.effect hfills hmem⟩
  · intro id hid
    exact nomatch hid

end Accept

/-! ### The filled candidate -/

/-- A candidate that holds the contents: its rows are theirs, and its tables have their content. -/
structure Filled (contents : Contents) (candidate : CandidateSnapshot) : Prop where
  recordIds : ∀ id, id ∈ candidate.rows.recordIds ↔ ∃ node ∈ contents.nodes, node.id = id
  records : ∀ node ∈ contents.nodes, candidate.transaction.records[node.id]? = some node
  edgeIds : ∀ id, id ∈ candidate.rows.edgeIds ↔ ∃ edge ∈ contents.edges, edge.id = id
  edges : ∀ edge ∈ contents.edges, candidate.transaction.edges[edge.id]? = some edge
  conflicts : ∀ conflict, conflict ∈ candidate.rows.conflicts ↔ conflict ∈ contents.conflicts
  sources_keyed : KeyedBy SourceState.sourceId candidate.rows.sources
  sources : ∀ source, source ∈ values candidate.rows.sources ↔ source ∈ contents.sources
  diagnostics : candidate.rows.diagnostics = contents.diagnostics

/-- Items that agree with a table are all in it once they are inserted, however often. -/
theorem getElem?_insertNewAll_of_distinct {α : Type} {key : α → String} {stored : StringMap α}
    {l l' : List α} (hl : l.Pairwise (fun a b => key a ≠ key b)) (hmem : ∀ a, a ∈ l' ↔ a ∈ l)
    (hagrees : ∀ a ∈ l, Agrees key stored a) {a : α} (ha : a ∈ l) :
    (insertNewAll key stored l')[key a]? = some a := by
  have hunique : ∀ a ∈ l', ∀ b ∈ l', key a = key b → a = b := by
    intro a ha b hb
    exact eq_of_pairwise_key_ne hl a ((hmem a).mp ha) b ((hmem b).mp hb)
  rw [getElem?_insertNewAll, (find?_key_eq_some hunique).mpr ⟨(hmem a).mpr ha, rfl⟩]
  cases hstored : stored[key a]? with
  | none => rfl
  | some other => rw [hagrees a ha other hstored]; rfl

/-- The members of a snapshot are the items whose keys it has, when these are stored. -/
theorem member_iff {α : Type} {key : α → String} {table : StringMap α} {ids : StringSet}
    {items : List α} (hids : ∀ id, id ∈ ids ↔ ∃ a ∈ items, key a = id)
    (hstored : ∀ a ∈ items, table[key a]? = some a) {a : α} :
    (key a ∈ ids ∧ table[key a]? = some a) ↔ a ∈ items := by
  constructor
  · rintro ⟨hid, hget⟩
    obtain ⟨a', ha', heq⟩ := (hids (key a)).mp hid
    have hget' := hstored a' ha'
    rw [heq, hget] at hget'
    obtain rfl := Option.some.inj hget'
    exact ha'
  · exact fun ha => ⟨(hids (key a)).mpr ⟨a, ha, rfl⟩, hstored a ha⟩

section Filled

variable {contents : Contents} {statements : List Statement} {db : Database} {id : String}

theorem filled_effect (hagrees : contents.AgreesWith db) (hfills : Fills contents statements) :
    Filled contents
      (statements.foldl CandidateSnapshot.effect ⟨db, id, Snapshot.candidate⟩) := by
  -- what the statements insert, part by part
  have hnodes : ∀ node, node ∈ statements.filterMap Statement.node? ↔ node ∈ contents.nodes :=
    fun node => (mem_filterMap_item node?_eq_some).trans (hfills.node node)
  have hedges : ∀ edge, edge ∈ statements.filterMap Statement.edge? ↔ edge ∈ contents.edges :=
    fun edge => (mem_filterMap_item edge?_eq_some).trans (hfills.edge edge)
  have hconflicts : ∀ conflict, conflict ∈ statements.filterMap Statement.conflict? ↔
      conflict ∈ contents.conflicts :=
    fun conflict => (mem_filterMap_item conflict?_eq_some).trans (hfills.conflict conflict)
  have hsources : ∀ source, source ∈ statements.filterMap Statement.source? ↔
      source ∈ contents.sources :=
    fun source => (mem_filterMap_item source?_eq_some).trans (hfills.source source)
  rw [CandidateSnapshot.foldl_effect]
  constructor
  case recordIds =>
    intro id
    show id ∈ List.foldl _ (∅ : StringSet) _ ↔ _
    rw [mem_foldl_insert]
    simp [hnodes]
  case records =>
    intro node hnode
    -- a record that the store has already is this one, by agreement
    exact getElem?_insertNewAll_of_distinct contents.nodes_distinct hnodes hagrees.nodes hnode
  case edgeIds =>
    intro id
    show id ∈ List.foldl _ (∅ : StringSet) _ ↔ _
    rw [mem_foldl_insert]
    simp [hedges]
  case edges =>
    intro edge hedge
    exact getElem?_insertNewAll_of_distinct contents.edges_distinct hedges hagrees.edges hedge
  case conflicts =>
    intro conflict
    show conflict ∈ List.foldl _ (∅ : ConflictSet) _ ↔ _
    have hset := @mem_foldl_insert Conflict Conflict compareConflicts _ (fun conflict => conflict)
      (statements.filterMap Statement.conflict?) _ ∅ conflict
    rw [hset]
    simp [hconflicts]
  case sources_keyed => exact keyedBy_indexBy
  case sources =>
    intro source
    have hunique : ∀ a ∈ statements.filterMap Statement.source?,
        ∀ b ∈ statements.filterMap Statement.source?, a.sourceId = b.sourceId → a = b := by
      intro a ha b hb
      exact eq_of_pairwise_key_ne contents.sources_distinct a ((hsources a).mp ha) b
        ((hsources b).mp hb)
    exact (mem_values_indexBy hunique).trans (hsources source)
  case diagnostics => exact hfills.diagnostics

variable {candidate : CandidateSnapshot}

/-- The contents refer to nothing outside of them, so neither does the candidate. -/
theorem Filled.closed (h : Filled contents candidate)
    (hkeyed : KeyedBy EvidenceEdge.id candidate.transaction.edges) :
    Closed candidate.transaction candidate.rows where
  edges edge hedge := by
    have hmem := (member_iff h.edgeIds h.edges).mp ((mem_memberEdges hkeyed).mp hedge)
    exact (contents.edges_closed edge hmem).imp (h.recordIds _).mpr (h.recordIds _).mpr
  conflicts conflict hconflict := by
    have hmem := (h.conflicts conflict).mp hconflict
    exact (contents.conflicts_closed conflict hmem).imp (h.recordIds _).mpr (h.recordIds _).mpr

/-- A published candidate shows the contents it holds. -/
theorem Filled.presents (h : Filled contents candidate)
    (hrecords : KeyedBy EvidenceNode.id candidate.transaction.records)
    (hedges : KeyedBy EvidenceEdge.id candidate.transaction.edges) :
    contents.Presents (snapshotSlice candidate.published candidate.snapshotId) := by
  have hsnapshot : candidate.published.snapshot candidate.snapshotId =
      { candidate.rows with state := .published } := Database.snapshot_setSnapshot _ _ _
  have hrecords' : KeyedBy EvidenceNode.id candidate.published.records := hrecords
  have hedges' : KeyedBy EvidenceEdge.id candidate.published.edges := hedges
  have hnodesMem : ∀ node, node ∈ memberRecords candidate.published
      { candidate.rows with state := .published } ↔ node ∈ contents.nodes := by
    intro node
    rw [mem_memberRecords hrecords']
    exact member_iff h.recordIds h.records
  have hedgesMem : ∀ edge, edge ∈ memberEdges candidate.published
      { candidate.rows with state := .published } ↔ edge ∈ contents.edges := by
    intro edge
    rw [mem_memberEdges hedges']
    exact member_iff h.edgeIds h.edges
  have hnodesSorted := memberRecords_pairwise hrecords'
    { candidate.rows with state := .published }
  have hedgesSorted := memberEdges_pairwise hedges'
    { candidate.rows with state := .published }
  have hconflictsSorted : candidate.rows.conflicts.toList.Pairwise
      (fun a b => compareConflicts a b = .lt) := ExtTreeSet.ordered_toList
  have hsourcesSorted := h.sources_keyed.values_pairwise
  have hnodup : ∀ {α : Type} {key : α → String} {l : List α},
      l.Pairwise (fun a b => key a ≠ key b) → l.Nodup :=
    fun hl => hl.imp (fun hne heq => hne (congrArg _ heq))
  -- both sides are sorted by a key without repetition, so equal members give a permutation
  rw [snapshotSlice, loadSources, hsnapshot]
  constructor
  case nodes =>
    exact perm_of_pairwise_key_lt hnodesSorted (hnodup contents.nodes_distinct) hnodesMem
  case nodes_sorted => exact hnodesSorted
  case edges =>
    exact perm_of_pairwise_key_lt hedgesSorted (hnodup contents.edges_distinct) hedgesMem
  case edges_sorted => exact hedgesSorted
  case conflicts =>
    exact @perm_of_pairwise_key_lt _ _ _ _ (fun conflict => conflict) _ _ hconflictsSorted
      contents.conflicts_distinct (fun conflict => ExtTreeSet.mem_toList.trans (h.conflicts conflict))
  case conflicts_sorted => exact hconflictsSorted
  case sources =>
    exact perm_of_pairwise_key_lt hsourcesSorted (hnodup contents.sources_distinct) h.sources
  case sources_sorted => exact hsourcesSorted

end Filled

/-- **Publish, then load, is the identity on evidence**, over every database that a session
    reaches. -/
theorem publish_load (attempts : List Attempt) {id : String}
    (hid : id ∉ (Session.fresh.run attempts).committed.snapshots) {contents : Contents}
    (hagrees : contents.AgreesWith (Session.fresh.run attempts).committed)
    {statements : List Statement} (hfills : Fills contents statements) {limits : SliceLimits}
    (hlimits : contents.Within limits) :
    ∃ candidate filled published slice,
      beginCandidate (Session.fresh.run attempts).committed id = .ok candidate ∧
      statements.foldlM CandidateSnapshot.execute candidate = .ok filled ∧
      filled.publish = .ok published ∧
      loadCurrentSlice published limits = .ok (some slice) ∧
      slice.snapshotId = id ∧ contents.Presents slice ∧
      currentQuarantine published = contents.diagnostics := by
  let db := (Session.fresh.run attempts).committed
  have hv : Valid db := (sessionValid_fresh.run attempts).valid
  let candidate : CandidateSnapshot := ⟨db, id, Snapshot.candidate⟩
  let filled := statements.foldl CandidateSnapshot.effect candidate
  have hbegin : beginCandidate db id = .ok candidate := if_neg hid
  have hrun : statements.foldlM CandidateSnapshot.execute candidate = .ok filled := by
    rw [foldlM_eq_ok_iff (fun _ _ _ => CandidateSnapshot.execute_eq_ok)]
    exact ⟨along_accepted hagrees hfills id, rfl⟩
  have hfilled : Filled contents filled := filled_effect hagrees hfills
  -- the invariant of the session covers the candidate through its statements
  have hsteps : ReflTransGen CandidateStep candidate filled :=
    reflTransGen_of_foldlM (R := CandidateStep)
      (fun _ _ _ h => CandidateSnapshot.candidateStep_of_execute h) hrun
  have hvalid : CandidateValid db filled := (candidateValid_begin hv hbegin).steps hsteps
  have hclosed := hfilled.closed hvalid.edges_keyed
  have hid' : filled.snapshotId = id := by
    show (statements.foldl CandidateSnapshot.effect candidate).snapshotId = id
    rw [CandidateSnapshot.foldl_effect]
  have hpresents := hfilled.presents hvalid.records_keyed hvalid.edges_keyed
  have hcurrent : currentSlice filled.published =
      some (snapshotSlice filled.published filled.snapshotId) := rfl
  have hfits : Fits (snapshotSlice filled.published filled.snapshotId) limits :=
    ⟨hpresents.nodes.length_eq ▸ hlimits.nodes, hpresents.edges.length_eq ▸ hlimits.edges,
      hpresents.conflicts.length_eq ▸ hlimits.conflicts⟩
  have hload : loadCurrentSlice filled.published limits =
      .ok (some (snapshotSlice filled.published filled.snapshotId)) :=
    ((hvalid.valid_published hv hclosed).loadCurrentSlice_iff hcurrent).mpr hfits
  have hquarantine : currentQuarantine filled.published = contents.diagnostics := by
    show (filled.published.snapshot filled.snapshotId).diagnostics = _
    have hsnapshot : filled.published.snapshot filled.snapshotId =
        { filled.rows with state := .published } := Database.snapshot_setSnapshot _ _ _
    rw [hsnapshot]
    exact hfilled.diagnostics
  exact ⟨candidate, filled, filled.published, _, hbegin, hrun, publish_eq_ok.mpr ⟨hclosed, rfl⟩,
    hload, hid', hpresents, hquarantine⟩

section Sample

/-- A record. -/
def sampleNode (id : String) (subjectId : Option String) : EvidenceNode :=
  ⟨id, .decision, .current, subjectId, none, ⟨.document, id, none, some "2026-01-01T00:00:00Z"⟩⟩

def sampleContents : Contents where
  nodes := [sampleNode "n2" none, sampleNode "n1" (some "s")]
  edges := [⟨"e", .documents, "n1", "n2", .current, ⟨.git, "e", some "r", none⟩⟩]
  conflicts := [⟨"n1", "n2", "rule"⟩]
  sources := [⟨"git", .git, .fresh, "2026-01-01T00:00:00Z", some "c"⟩,
    ⟨"docs", .document, .stale, "2026-01-01T00:00:00Z", none⟩]
  diagnostics := [⟨"b.md", "code", "second"⟩, ⟨"a.md", "code", "first"⟩]
  nodes_distinct := by decide
  edges_distinct := by decide
  conflicts_distinct := by decide
  sources_distinct := by decide
  edges_closed := by decide
  conflicts_closed := by decide

/-- Insertions of the sample contents, some of them repeated. -/
def sampleStatements : List Statement :=
  [.diagnostic ⟨"b.md", "code", "second"⟩,
    .record (sampleNode "n1" (some "s")),
    .source ⟨"git", .git, .fresh, "2026-01-01T00:00:00Z", some "c"⟩,
    .record (sampleNode "n2" none),
    .conflict ⟨"n1", "n2", "rule"⟩,
    .edge ⟨"e", .documents, "n1", "n2", .current, ⟨.git, "e", some "r", none⟩⟩,
    .record (sampleNode "n1" (some "s")),
    .edge ⟨"e", .documents, "n1", "n2", .current, ⟨.git, "e", some "r", none⟩⟩,
    .diagnostic ⟨"a.md", "code", "first"⟩,
    .source ⟨"docs", .document, .stale, "2026-01-01T00:00:00Z", none⟩]

theorem fills_sample : Fills sampleContents sampleStatements where
  node node := by simp [sampleStatements, sampleContents, or_comm]
  edge edge := by simp [sampleStatements, sampleContents]
  conflict conflict := by simp [sampleStatements, sampleContents]
  source source := by simp [sampleStatements, sampleContents]
  diagnostics := rfl
  recordsFirst := by
    simp [sampleStatements, Along, Statement.mentions, Statement.provides, Statement.node?,
      sampleNode]

/-- An earlier snapshot with one of the records. -/
def sampleAttempts : List Attempt :=
  [⟨.beginCandidate "old", none⟩, ⟨.statement (.record (sampleNode "n1" (some "s"))), none⟩,
    ⟨.publish, none⟩]

theorem publish_load_sample : ∃ candidate filled published slice,
    beginCandidate (Session.fresh.run sampleAttempts).committed "new" = .ok candidate ∧
    sampleStatements.foldlM CandidateSnapshot.execute candidate = .ok filled ∧
    filled.publish = .ok published ∧
    loadCurrentSlice published ⟨2, 1, 1⟩ = .ok (some slice) ∧
    slice.snapshotId = "new" ∧ sampleContents.Presents slice ∧
    currentQuarantine published = sampleContents.diagnostics := by
  have hstored : (Session.fresh.run sampleAttempts).committed.records["n1"]? =
      some (sampleNode "n1" (some "s")) := by decide
  have hnew : (Session.fresh.run sampleAttempts).committed.records["n2"]? = none := by
    decide
  have hedges : (Session.fresh.run sampleAttempts).committed.edges["e"]? = none := by
    decide
  have hagrees : sampleContents.AgreesWith (Session.fresh.run sampleAttempts).committed := by
    constructor
    · simp [sampleContents, Agrees, sampleNode, hnew, hstored]
    · simp [sampleContents, Agrees, hedges]
  exact publish_load sampleAttempts (by decide) hagrees fills_sample
    ⟨by decide, by decide, by decide⟩

end Sample

end Rationale.Store
