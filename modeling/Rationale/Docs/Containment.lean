import Rationale.Docs.Batch
import Rationale.Splitting

namespace Rationale.Docs

open Std Rationale.Library Rationale.Text

/-!
# What a batch is made of, and what is kept out of it

The result of ingestion from the outcomes of its inputs.

* `dedupBy_sortBy` — sorting and dropping repetitions gives the distinct elements in order;
* `MadeOfAccepted` — records, edges and conflicts are the contributions of the accepted documents,
  with one diagnostic for each rejected input;
* `SameEvidence` — two runs of the loop that differ in their diagnostics and positions only;
* `ingest_order_free_and_contained` — the result does not depend on the order of the inputs, and a
  rejected input leaves no trace in its evidence.
-/

/-! ### Sorting and deduplicating -/

section Sorted

variable {α : Type} [DecidableEq α] {cmp : α → α → Ordering} [TransCmp cmp] [LawfulEqCmp cmp]

/-- Sorting and dropping repetitions gives the distinct elements in order. -/
theorem dedupBy_sortBy (l : List α) : dedupBy (· == ·) (sortBy cmp l) = sortUniq cmp l := by
  have hlt : (dedupBy (· == ·) (sortBy cmp l)).Pairwise (fun a b => cmp a b = .lt) :=
    @dedupBy_pairwise α α _ id cmp _ _ _ (@sortBy_pairwise _ cmp _ l)
  refine eq_of_pairwise_lt_of_mem_iff hlt (sortUniq_pairwise l) (fun a => ?_)
  rw [mem_dedupBy, mem_sortBy, mem_sortUniq]

end Sorted

/-! ### Contributions -/

section Contributions

variable (hash : String → String) (parsers : Parsers) (config : IngestConfig)

/-- Every relationship of the documents that the inputs parse to. -/
def parsedEdges (inputs : List DocumentInput) : List EvidenceEdge :=
  inputs.flatMap fun input => match parseInput hash parsers config input with
    | .ok (some (_, parsed)) => parsed.edges
    | _ => []

/-- The text that an edge's identifier is hashed from. -/
def hashedText (e : EvidenceEdge) : String :=
  edgeMaterial e.kind e.sourceId e.targetId e.origin.locator

/-- The digits kept of the hash tell the relationships of a batch apart. -/
def TruncatedHashInjective (inputs : List DocumentInput) : Prop :=
  ∀ e ∈ parsedEdges hash parsers config inputs, ∀ e' ∈ parsedEdges hash parsers config inputs,
    (hash (hashedText e)).toList.take 24 = (hash (hashedText e')).toList.take 24 →
      hashedText e = hashedText e'

instance (inputs : List DocumentInput) :
    Decidable (TruncatedHashInjective hash parsers config inputs) :=
  inferInstanceAs (Decidable (∀ e ∈ _, ∀ e' ∈ _, _))

/-- The accepted documents of a batch, in path order. -/
def contributions (inputs : List DocumentInput) : List ParsedInput :=
  ((byPath inputs).map (outcome hash parsers config inputs)).filterMap Outcome.contribution

/-- A result made of what the accepted documents of a batch contribute, in canonical order and
    without repetition, with one diagnostic for each rejected input. -/
structure MadeOfAccepted (inputs : List DocumentInput) (result : IngestResult) : Prop where
  records_sorted : result.records.Pairwise (fun a b => compare a.id b.id = .lt)
  mem_records : ∀ node, node ∈ result.records ↔
    ∃ input ∈ inputs, ∃ parsed, Accepts hash parsers config inputs input parsed ∧ parsed.node = node
  edges_sorted : result.edges.Pairwise (fun a b => compare a.id b.id = .lt)
  mem_edges : ∀ e, e ∈ result.edges ↔
    ∃ input ∈ inputs, ∃ parsed, Accepts hash parsers config inputs input parsed ∧ e ∈ parsed.edges
  conflicts_sorted : result.conflicts.Pairwise (fun a b => compareConflicts a b = .lt)
  mem_conflicts : ∀ conflict, conflict ∈ result.conflicts ↔
    ∃ input ∈ inputs, ∃ parsed, Accepts hash parsers config inputs input parsed ∧
      conflict ∈ parsed.conflicts
  diagnostics : result.diagnostics = sortBy compareDiagnostics
    (inputs.filterMap fun input => (outcome hash parsers config inputs input).rejection)

variable {hash parsers config} {inputs : List DocumentInput} {input : DocumentInput}
  {parsed : ParsedInput}

theorem mem_parsedEdges {e : EvidenceEdge} :
    e ∈ parsedEdges hash parsers config inputs ↔ ∃ input ∈ inputs, ∃ path parsed,
      parseInput hash parsers config input = .ok (some (path, parsed)) ∧ e ∈ parsed.edges := by
  unfold parsedEdges
  rw [List.mem_flatMap]
  refine exists_congr (fun input => and_congr_right (fun _ => ?_))
  cases parseInput hash parsers config input with
  | error item => simp
  | ok document? =>
    rcases document? with - | ⟨path, parsed⟩
    · simp
    · constructor
      · exact fun he => ⟨path, parsed, rfl, he⟩
      · rintro ⟨path', parsed', heq, he⟩
        obtain ⟨-, rfl⟩ := Prod.mk.inj (Option.some.inj (Except.ok.inj heq))
        exact he

/-- An input parses to what its contents parse to. -/
theorem parseDocument_of_parseInput {path : String}
    (h : parseInput hash parsers config input = .ok (some (path, parsed))) :
    parseDocument hash parsers config path input.content = .ok (some parsed) := by
  unfold parseInput at h
  split at h
  · exact nomatch h
  split at h
  · exact nomatch h
  split at h
  · exact nomatch h
  · exact nomatch Except.ok.inj h
  · next hparse =>
    obtain ⟨rfl, rfl⟩ := Prod.mk.inj (Option.some.inj (Except.ok.inj h))
    exact hparse

theorem Accepts.parseDocument (h : Accepts hash parsers config inputs input parsed) :
    ∃ path, parseInput hash parsers config input = .ok (some (path, parsed)) ∧
      Docs.parseDocument hash parsers config path input.content = .ok (some parsed) := by
  obtain ⟨path, hparse⟩ := (judge_accepted_iff.mp h).2.1
  exact ⟨path, hparse, parseDocument_of_parseInput hparse⟩

/-- Valid identifiers are free of the separator of hashed texts. -/
theorem notMem_of_validateId {id : String} (h : validateId id = .ok ()) : '\x00' ∉ id.toList := by
  unfold validateId at h
  split at h
  · exact nomatch h
  split at h
  · next hall =>
    intro hmem
    have hnul := List.all_eq_true.mp hall _ hmem
    exact absurd hnul (by decide)
  · exact nomatch h

/-- The relationships of accepted documents have their identifiers for themselves. -/
theorem eq_of_edge_id (hpaths : (inputs.map DocumentInput.path).Nodup)
    (hhash : TruncatedHashInjective hash parsers config inputs)
    {input' : DocumentInput} {parsed' : ParsedInput} (hinput : input ∈ inputs)
    (hinput' : input' ∈ inputs) (h : Accepts hash parsers config inputs input parsed)
    (h' : Accepts hash parsers config inputs input' parsed') {e e' : EvidenceEdge}
    (he : e ∈ parsed.edges) (he' : e' ∈ parsed'.edges) (hid : e.id = e'.id) : e = e' := by
  obtain ⟨path, hinputparse, hparse⟩ := h.parseDocument
  obtain ⟨path', hinputparse', hparse'⟩ := h'.parseDocument
  have hg := governed_parseDocument hparse
  have hg' := governed_parseDocument hparse'
  -- the identifiers are the digits kept of the hashes of the two texts
  have hdigits : (hash (hashedText e)).toList.take 24 = (hash (hashedText e')).toList.take 24 := by
    rw [hg.edges e he, hg'.edges e' he'] at hid
    have hlist := congrArg String.toList hid
    simp only [edge, hashedEdge, String.toList_append, String.toList_ofList] at hlist
    have hdigits := List.append_cancel_left hlist
    unfold hashedText
    rw [hg.edges e he, hg'.edges e' he']
    exact hdigits
  have htext := hhash e (mem_parsedEdges.mpr ⟨input, hinput, path, parsed, hinputparse, he⟩)
    e' (mem_parsedEdges.mpr ⟨input', hinput', path', parsed', hinputparse', he'⟩) hdigits
  obtain ⟨hsource, htarget⟩ := validateId_ends_of_parseDocument hparse he
  obtain ⟨hsource', htarget'⟩ := validateId_ends_of_parseDocument hparse' he'
  obtain ⟨hkind, hsourceId, htargetId, hlocator⟩ := edgeMaterial_inj (notMem_of_validateId hsource)
    (notMem_of_validateId hsource') (notMem_of_validateId htarget) (notMem_of_validateId htarget') htext
  -- so the two documents are in one place and define one record
  have horigin : parsed.node.origin = parsed'.node.origin := by
    apply documentOrigin_eq_of_locator hg.origin hg'.origin
    rw [hg.edges e he, hg'.edges e' he'] at hlocator
    exact hlocator
  have hnodeid : parsed.node.id = parsed'.node.id := by
    rcases documentOrigin_sourceKind hg.origin with hsourceKind | hsourceKind
    · rw [← hg.source hsourceKind e he, ← hg'.source (horigin ▸ hsourceKind) e' he']
      exact hsourceId
    · rw [← hg.target hsourceKind e he, ← hg'.target (horigin ▸ hsourceKind) e' he']
      exact htargetId
  have hnode := node_eq_of_accepts hpaths hinput hinput' h h' hnodeid
  rw [hg.edges e he, hg'.edges e' he', hkind, hsourceId, htargetId, hnode]

theorem contribution_eq_some {result : Outcome} :
    result.contribution = some parsed ↔ result = .accepted parsed := by
  cases result with
  | accepted document => simp [Outcome.contribution]
  | _ => simp [Outcome.contribution]

theorem rejection_eq_some {result : Outcome} {item : IngestDiagnostic} :
    result.rejection = some item ↔ result = .rejected item := by
  cases result with
  | rejected found => simp [Outcome.rejection]
  | _ => simp [Outcome.rejection]

/-- What the accepted documents of a batch hold. -/
theorem mem_flatMap_contributions {α : Type} {f : ParsedInput → List α} {a : α} :
    a ∈ (contributions hash parsers config inputs).flatMap f ↔
      ∃ input ∈ inputs, ∃ parsed, Accepts hash parsers config inputs input parsed ∧
        a ∈ f parsed := by
  unfold contributions Accepts
  simp only [List.mem_flatMap, List.mem_filterMap, List.mem_map, mem_byPath, contribution_eq_some]
  constructor
  · rintro ⟨parsed, ⟨_, ⟨input, hinput, rfl⟩, h⟩, ha⟩
    exact ⟨input, hinput, parsed, h, ha⟩
  · rintro ⟨input, hinput, parsed, h, ha⟩
    exact ⟨parsed, ⟨_, ⟨input, hinput, rfl⟩, h⟩, ha⟩

/-- The accumulators after the whole batch. -/
theorem ingestRun_byPath (hpaths : (inputs.map DocumentInput.path).Nodup) :
    ingestRun hash parsers config (byPath inputs) =
      ((byPath inputs).map (outcome hash parsers config inputs)).foldl IngestState.record
        IngestState.empty :=
  ingestRun_eq hpaths (List.prefix_refl _)

/-- **The records** of a batch are those of its accepted documents. -/
theorem mem_records_iff (hpaths : (inputs.map DocumentInput.path).Nodup) {node : EvidenceNode} :
    node ∈ (ingest hash parsers config inputs).records ↔
      ∃ input ∈ inputs, ∃ parsed, Accepts hash parsers config inputs input parsed ∧
        parsed.node = node := by
  show node ∈ values (ingestRun hash parsers config (byPath inputs)).records ↔ _
  have hkeyed : KeyedBy EvidenceNode.id
      (ingestRun hash parsers config (byPath inputs)).records := by
    rw [ingestRun_byPath hpaths, records_foldl_record]
    exact keyedBy_empty.insertNewAll
  rw [hkeyed.mem_values_iff, getElem?_ingestRun hpaths (List.prefix_refl _)]
  simp

theorem edges_eq (hpaths : (inputs.map DocumentInput.path).Nodup) :
    (ingest hash parsers config inputs).edges = values (indexBy EvidenceEdge.id
      ((contributions hash parsers config inputs).flatMap ParsedInput.edges) :
        StringMap EvidenceEdge) := by
  show values (ingestRun hash parsers config (byPath inputs)).edges = _
  rw [ingestRun_byPath hpaths, edges_foldl_record]
  rfl

/-- **The edges** of a batch are those of its accepted documents. -/
theorem mem_edges_iff (hpaths : (inputs.map DocumentInput.path).Nodup)
    (hhash : TruncatedHashInjective hash parsers config inputs) {e : EvidenceEdge} :
    e ∈ (ingest hash parsers config inputs).edges ↔
      ∃ input ∈ inputs, ∃ parsed, Accepts hash parsers config inputs input parsed ∧
        e ∈ parsed.edges := by
  rw [edges_eq hpaths, mem_values_indexBy, mem_flatMap_contributions]
  intro e he e' he' hid
  obtain ⟨input, hinput, parsed, h, he⟩ := mem_flatMap_contributions.mp he
  obtain ⟨input', hinput', parsed', h', he'⟩ := mem_flatMap_contributions.mp he'
  exact eq_of_edge_id hpaths hhash hinput hinput' h h' he he' hid

/-- **The conflicts** of a batch are those of its accepted documents, each once. -/
theorem conflicts_eq (hpaths : (inputs.map DocumentInput.path).Nodup) :
    (ingest hash parsers config inputs).conflicts = sortUniq compareConflicts
      ((contributions hash parsers config inputs).flatMap ParsedInput.conflicts) := by
  show dedupBy _ (sortBy compareConflicts
    (ingestRun hash parsers config (byPath inputs)).conflicts) = _
  rw [dedupBy_sortBy, ingestRun_byPath hpaths, conflicts_foldl_record]
  rfl

/-- **The diagnostics** of a batch: one for each rejected input. -/
theorem diagnostics_eq (hpaths : (inputs.map DocumentInput.path).Nodup) :
    (ingest hash parsers config inputs).diagnostics = sortBy compareDiagnostics
      (inputs.filterMap fun input => (outcome hash parsers config inputs input).rejection) := by
  show sortBy compareDiagnostics (ingestRun hash parsers config (byPath inputs)).diagnostics = _
  rw [ingestRun_byPath hpaths, diagnostics_foldl_record, List.filterMap_map]
  exact sortBy_eq_of_perm ((byPath_perm inputs).filterMap _)
    (fun _ _ _ _ => LawfulEqCmp.eq_of_compare)

/-- Everything a batch is made of. -/
theorem madeOfAccepted (hpaths : (inputs.map DocumentInput.path).Nodup)
    (hhash : TruncatedHashInjective hash parsers config inputs) :
    MadeOfAccepted hash parsers config inputs (ingest hash parsers config inputs) where
  records_sorted := ingested_ingest.keyed.values_pairwise
  mem_records _ := mem_records_iff hpaths
  edges_sorted := by
    rw [edges_eq hpaths]
    exact keyedBy_indexBy.values_pairwise
  mem_edges _ := mem_edges_iff hpaths hhash
  conflicts_sorted := by
    rw [conflicts_eq hpaths]
    exact sortUniq_pairwise _
  mem_conflicts conflict := by
    rw [conflicts_eq hpaths, mem_sortUniq, mem_flatMap_contributions]
  diagnostics := diagnostics_eq hpaths

end Contributions

/-! ### Batches that differ in one input -/

section TwoRuns

variable {hash : String → String} {parsers : Parsers} {config : IngestConfig}
  {inputs : List DocumentInput} {input : DocumentInput}

/-- The loop computes from the same evidence. -/
structure SameEvidence (state state' : IngestState) : Prop where
  records : state.records = state'.records
  edges : state.edges = state'.edges
  conflicts : state.conflicts = state'.conflicts

/-- Diagnostics do not reach the evidence. -/
theorem SameEvidence.record {state state' : IngestState} (h : SameEvidence state state')
    (result : Outcome) : SameEvidence (state.record result) (state'.record result) := by
  cases result with
  | accepted parsed =>
    refine ⟨?_, ?_, ?_⟩
    · show state.records.insertIfNew _ _ = state'.records.insertIfNew _ _
      rw [h.records]
    · show insertAll _ state.edges _ = insertAll _ state'.edges _
      rw [h.edges]
    · show state.conflicts ++ _ = state'.conflicts ++ _
      rw [h.conflicts]
  | rejected item => exact ⟨h.records, h.edges, h.conflicts⟩
  | ignored => exact h

/-- Below the limit the position of an input does not matter. -/
theorem judge_eq_of_lt {records : StringMap EvidenceNode} {index index' : Nat}
    (h : index < config.maxDocuments) (h' : index' < config.maxDocuments) :
    judge hash parsers config records index input =
      judge hash parsers config records index' input := by
  unfold judge
  rw [if_neg (by omega), if_neg (by omega)]

/-- **The rest of the loop**, from the same evidence at two positions. -/
theorem SameEvidence.foldl {state state' : IngestState} (h : SameEvidence state state')
    {index index' : Nat} (hindex : index + inputs.length ≤ config.maxDocuments)
    (hindex' : index' + inputs.length ≤ config.maxDocuments) :
    SameEvidence ((inputs.zipIdx index).foldl (ingestOne hash parsers config) state)
      ((inputs.zipIdx index').foldl (ingestOne hash parsers config) state') := by
  induction inputs generalizing state state' index index' with
  | nil => exact h
  | cons input inputs ih =>
    rw [List.length_cons] at hindex hindex'
    rw [List.zipIdx_cons, List.zipIdx_cons, List.foldl_cons, List.foldl_cons, ingestOne_eq,
      ingestOne_eq, h.records, @judge_eq_of_lt hash parsers config input _ index index'
        (by omega) (by omega)]
    exact ih (h.record _) (by omega) (by omega)

theorem byPath_eq_of_perm {inputs' : List DocumentInput} (hperm : inputs.Perm inputs')
    (hpaths : (inputs.map DocumentInput.path).Nodup) :
    byPath inputs = byPath inputs' :=
  sortBy_eq_of_perm hperm (fun _ ha _ hb heq =>
    List.inj_on_of_nodup_map hpaths ha hb (Std.compare_eq_iff_eq.mp heq))

/-- **Containment.** A rejected input leaves no trace in the evidence. -/
theorem sameEvidence_without {rest : List DocumentInput} {item : IngestDiagnostic}
    (hpaths : (inputs.map DocumentInput.path).Nodup) (hperm : inputs.Perm (input :: rest))
    (hlimit : inputs.length ≤ config.maxDocuments)
    (hrejected : outcome hash parsers config inputs input = .rejected item) :
    SameEvidence (ingestRun hash parsers config (byPath rest))
      (ingestRun hash parsers config (byPath inputs)) := by
  have hinput : input ∈ byPath inputs :=
    mem_byPath.mpr (hperm.mem_iff.mpr List.mem_cons_self)
  obtain ⟨pre, post, hsplit⟩ := List.append_of_mem hinput
  have hrest : byPath rest = pre ++ post := by
    have hpermrest : rest.Perm (pre ++ post) := by
      refine List.Perm.cons_inv (a := input) (hperm.symm.trans ?_)
      refine (byPath_perm inputs).symm.trans ?_
      rw [hsplit]
      exact List.perm_middle
    have hsorted := byPath_pairwise hpaths
    rw [hsplit] at hsorted
    have hsorted : (pre ++ post).Pairwise (fun a b => compare a.path b.path = .lt) :=
      hsorted.sublist (List.Sublist.append_left (List.sublist_cons_self input post) pre)
    have hrestpaths : (rest.map DocumentInput.path).Nodup := by
      have hnodup := (hperm.map DocumentInput.path).nodup_iff.mp hpaths
      exact (List.nodup_cons.mp hnodup).2
    rw [byPath_eq_of_perm hpermrest hrestpaths]
    exact sortBy_eq_self (hsorted.imp (fun h => by
      show (compare _ _).isLE
      rw [h]
      rfl))
  have hlength : pre.length + (post.length + 1) ≤ config.maxDocuments := by
    have hcount := (byPath_perm inputs).length_eq
    rw [hsplit, List.length_append, List.length_cons] at hcount
    omega
  -- the turn of the rejected input only reports
  have hturn : SameEvidence (ingestRun hash parsers config pre)
      ((ingestRun hash parsers config pre).record (judge hash parsers config
        (ingestRun hash parsers config pre).records pre.length input)) := by
    unfold outcome rank at hrejected
    rw [earlier_eq hpaths hsplit] at hrejected
    rw [hrejected]
    exact ⟨rfl, rfl, rfl⟩
  rw [hrest, hsplit]
  unfold ingestRun at hturn ⊢
  rw [List.zipIdx_append, List.zipIdx_append, List.foldl_append, List.foldl_append,
    List.zipIdx_cons, List.foldl_cons, ingestOne_eq, Nat.zero_add]
  exact hturn.foldl (by omega) (by omega)

end TwoRuns

/-! ### Ingestion -/

section Main

variable {hash : String → String} {parsers : Parsers} {config : IngestConfig}
  {inputs : List DocumentInput}

/-- **Ingestion is order-free and quarantine is contained.**  For inputs with distinct paths: any
    order of them has the same result; an input is accepted exactly when its rank is below the
    limit, it parses, and no accepted document before it defines its identifier differently; an
    input is rejected exactly for the limit, a check it fails or its identifier; the result is made
    of the accepted documents; and, within the limit, without a rejected input the evidence is the
    same. -/
theorem ingest_order_free_and_contained (hpaths : (inputs.map DocumentInput.path).Nodup)
    (hhash : TruncatedHashInjective hash parsers config inputs) :
    (∀ inputs' : List DocumentInput, inputs'.Perm inputs →
      ingest hash parsers config inputs' = ingest hash parsers config inputs) ∧
    (∀ input ∈ inputs, ∀ parsed, Accepts hash parsers config inputs input parsed ↔
      rank inputs input < config.maxDocuments ∧
        (∃ path, parseInput hash parsers config input = .ok (some (path, parsed))) ∧
        ∀ other ∈ inputs, compare other.path input.path = .lt → ∀ document,
          Accepts hash parsers config inputs other document →
            document.node.id = parsed.node.id → document.node = parsed.node) ∧
    (∀ input ∈ inputs, ∀ item, outcome hash parsers config inputs input = .rejected item ↔
      config.maxDocuments ≤ rank inputs input ∧ item = documentLimit input ∨
      rank inputs input < config.maxDocuments ∧
        parseInput hash parsers config input = .error item ∨
      rank inputs input < config.maxDocuments ∧ ∃ path parsed,
        parseInput hash parsers config input = .ok (some (path, parsed)) ∧
          item = duplicateRecord path ∧
          ∃ other ∈ inputs, compare other.path input.path = .lt ∧ ∃ document,
            Accepts hash parsers config inputs other document ∧
              document.node.id = parsed.node.id ∧ document.node ≠ parsed.node) ∧
    MadeOfAccepted hash parsers config inputs (ingest hash parsers config inputs) ∧
    ∀ input rest item, inputs.Perm (input :: rest) → inputs.length ≤ config.maxDocuments →
      outcome hash parsers config inputs input = .rejected item →
        (ingest hash parsers config rest).records = (ingest hash parsers config inputs).records ∧
        (ingest hash parsers config rest).edges = (ingest hash parsers config inputs).edges ∧
        (ingest hash parsers config rest).conflicts =
          (ingest hash parsers config inputs).conflicts := by
  refine ⟨fun inputs' hperm => ?_, fun input hinput parsed => accepts_iff hpaths hinput,
    fun input hinput item => rejected_iff hpaths hinput, madeOfAccepted hpaths hhash,
    fun input rest item hperm hlimit hrejected => ?_⟩
  · -- the order is lost in the first step, which sorts by path
    unfold ingest
    rw [show sortBy (compareOn DocumentInput.path) inputs' =
      sortBy (compareOn DocumentInput.path) inputs from
        (byPath_eq_of_perm hperm.symm hpaths).symm]
  · -- the two folds end in states with the same evidence, and the rest only reads it
    have hsame := sameEvidence_without hpaths hperm hlimit hrejected
    refine ⟨?_, ?_, ?_⟩
    · exact congrArg values hsame.records
    · exact congrArg values hsame.edges
    · exact congrArg (fun conflicts => dedupBy (· == ·) (sortBy compareConflicts conflicts))
        hsame.conflicts

/-! Two documents define one decision differently, and a third supersedes it. -/

/-- The metadata of the sample batch, one word for each document. -/
def sampleParsers : Parsers where
  rationale _ text :=
    if text = "first\n" then
      .metadata ⟨"ADR-1", none, none, none, "accepted", [], [], [], []⟩
    else if text = "second\n" then
      .metadata ⟨"ADR-1", none, none, none, "historical", [], [], [], [⟨"ADR-2", "rule"⟩]⟩
    else .metadata ⟨"ADR-2", none, none, none, "accepted", [], ["ADR-1"], [], []⟩
  verification _ _ := none
  markdown _ := []

def sampleBatch : List DocumentInput :=
  [⟨"a.md", "---\nfirst\n---\n"⟩, ⟨"b.md", "---\nsecond\n---\n"⟩, ⟨"c.md", "---\nthird\n---\n"⟩]

theorem ingest_sample_order_free_and_contained :
    ingest id sampleParsers .default sampleBatch.reverse =
      ingest id sampleParsers .default sampleBatch ∧
    (outcome id sampleParsers .default sampleBatch ⟨"b.md", "---\nsecond\n---\n"⟩).rejection =
      some (duplicateRecord "b.md") ∧
    (ingest id sampleParsers .default
      [⟨"a.md", "---\nfirst\n---\n"⟩, ⟨"c.md", "---\nthird\n---\n"⟩]).records =
        (ingest id sampleParsers .default sampleBatch).records := by
  have hrejected : (outcome id sampleParsers .default sampleBatch
      ⟨"b.md", "---\nsecond\n---\n"⟩).rejection = some (duplicateRecord "b.md") := by
    decide
  have h := @ingest_order_free_and_contained id sampleParsers .default sampleBatch (by decide)
    (by decide)
  obtain ⟨hperm, -, -, -, hwithout⟩ := h
  refine ⟨hperm _ (List.reverse_perm _), hrejected, (hwithout _ _ _ ?_ (by decide)
    (rejection_eq_some.mp hrejected)).1⟩
  exact List.Perm.swap _ _ _

end Main

end Rationale.Docs
