import Rationale.Docs.Ingest
import Rationale.Splitting

namespace Rationale.Docs

open Std Rationale.Library Rationale.Text

/-!
# What a batch of documents defines

Ingestion described document by document, without its accumulators.

* `Governed` — the shape of a parsed document: every relationship has the record's status and
  origin, and the record at one end;
* `parsedInputs` — the documents of a batch that parse, in path order;
* `definition`, `accepted` — the first document with an identifier defines it, and the documents
  that agree with it contribute their relationships;
* `ingest_records`, `mem_ingest_edges` — the loop of `ingest` computes exactly this.
-/

/-! ### Parsed documents -/

/-- The origin of a document's record names its file and its kind. -/
inductive DocumentOrigin : Origin → Prop where
  | markdown (path : String) : DocumentOrigin ⟨.document, path ++ "#rationale", none, none⟩
  | verification (path : String) : DocumentOrigin ⟨.verification, path ++ "#verification", none, none⟩

/-- The locator of a document tells its file and its kind. -/
theorem documentOrigin_eq_of_locator {origin origin' : Origin} (h : DocumentOrigin origin)
    (h' : DocumentOrigin origin') (heq : origin.locator = origin'.locator) : origin = origin' := by
  have hlast : ∀ path path' : String, path ++ "#rationale" ≠ path' ++ "#verification" := by
    intro path path' heq
    have hrev := congrArg (fun s : String => s.toList.reverse.head?) heq
    simp at hrev
  cases h with
  | markdown path =>
    cases h' with
    | markdown path' => rw [show path ++ "#rationale" = path' ++ "#rationale" from heq]
    | verification path' => exact absurd heq (hlast path path')
  | verification path =>
    cases h' with
    | markdown path' => exact absurd heq.symm (hlast path' path)
    | verification path' => rw [show path ++ "#verification" = path' ++ "#verification" from heq]

theorem documentOrigin_sourceKind {origin : Origin} (h : DocumentOrigin origin) :
    origin.sourceKind = .document ∨ origin.sourceKind = .verification := by
  cases h with
  | markdown path => exact Or.inl rfl
  | verification path => exact Or.inr rfl

/-- What a parsed document looks like. -/
structure Governed (hash : String → String) (parsed : ParsedInput) : Prop where
  origin : DocumentOrigin parsed.node.origin
  edges : ∀ e ∈ parsed.edges,
    e = edge hash e.kind e.sourceId e.targetId parsed.node.status parsed.node.origin
  source : parsed.node.origin.sourceKind = .document → ∀ e ∈ parsed.edges,
    e.sourceId = parsed.node.id
  target : parsed.node.origin.sourceKind = .verification → ∀ e ∈ parsed.edges,
    e.targetId = parsed.node.id

section Parse

variable {hash : String → String} {parsers : Parsers}

/-- Sorting and deduplicating adds no edges. -/
theorem mem_of_mem_sortEdges {edges : List EvidenceEdge} {e : EvidenceEdge}
    (h : e ∈ sortEdges edges) : e ∈ edges :=
  mem_sortBy.mp (mem_of_mem_dedupBy h)

/-- A document's checks keep the outcome of the check. -/
theorem withCode_eq_ok {α : Type} {code : String} {result : Except String α} {a : α} :
    withCode code result = .ok a ↔ result = .ok a :=
  mapError_eq_ok

/-- The edges to a list of targets are all made in the same way, to valid identifiers. -/
theorem edgesTo_eq_ok {code : String} {mk : String → EvidenceEdge} {targets : List String}
    {edges : List EvidenceEdge} : edgesTo code mk targets = .ok edges ↔
      edges = targets.map mk ∧ ∀ target ∈ targets, validateId target = .ok () := by
  unfold edgesTo
  constructor
  · intro h
    induction targets generalizing edges with
    | nil => exact ⟨(Except.ok.inj h).symm, fun target hmem => absurd hmem List.not_mem_nil⟩
    | cons target targets ih =>
      rw [List.mapM_cons, bind_eq_ok] at h
      obtain ⟨first, hfirst, h⟩ := h
      obtain ⟨_, hvalid, hfirst⟩ := bind_eq_ok.mp hfirst
      obtain rfl := Except.ok.inj hfirst
      obtain ⟨rest, hrest, h⟩ := bind_eq_ok.mp h
      obtain ⟨hmap, hall⟩ := ih hrest
      refine ⟨?_, List.forall_mem_cons.mpr ⟨withCode_eq_ok.mp hvalid, hall⟩⟩
      rw [← Except.ok.inj h, hmap, List.map_cons]
  · rintro ⟨rfl, hvalid⟩
    induction targets with
    | nil => rfl
    | cons target targets ih =>
      obtain ⟨htarget, hrest⟩ := List.forall_mem_cons.mp hvalid
      rw [List.mapM_cons, ih hrest, htarget]
      rfl

theorem exists_of_mem_edgesTo {code : String} {mk : String → EvidenceEdge}
    {targets : List String} {edges : List EvidenceEdge} (h : edgesTo code mk targets = .ok edges)
    {e : EvidenceEdge} (he : e ∈ edges) : ∃ target, validateId target = .ok () ∧ e = mk target := by
  obtain ⟨hmap, hvalid⟩ := edgesTo_eq_ok.mp h
  rw [hmap] at he
  obtain ⟨target, htarget, rfl⟩ := List.mem_map.mp he
  exact ⟨target, hvalid target htarget, rfl⟩

/-- A Markdown record's edges lead from it to valid identifiers. -/
theorem edges_normalizeMarkdown {path body : String} {patterns : IdPatterns}
    {metadata : RationaleMetadata} {parsed : ParsedInput}
    (h : normalizeMarkdown hash parsers path body patterns metadata = .ok parsed) :
    parsed.node.origin = ⟨.document, path ++ "#rationale", none, none⟩ ∧
      validateId parsed.node.id = .ok () ∧ ∀ e ∈ parsed.edges, ∃ kind target,
        validateId target = .ok () ∧
          e = edge hash kind parsed.node.id target parsed.node.status parsed.node.origin := by
  unfold normalizeMarkdown at h
  simp only [bind_eq_ok] at h
  obtain ⟨_, hid, nodeKind, -, status, -, documents, hdocuments, supersedes, hsupersedes, verifiedBy,
    hverifiedBy, conflicts, -, h⟩ := h
  obtain rfl := Except.ok.inj h
  refine ⟨rfl, withCode_eq_ok.mp hid, fun e he => ?_⟩
  rcases List.mem_append.mp (mem_of_mem_sortEdges he) with he | he
  · rcases List.mem_append.mp he with he | he
    · exact ⟨_, exists_of_mem_edgesTo hdocuments he⟩
    · exact ⟨_, exists_of_mem_edgesTo hsupersedes he⟩
  · exact ⟨_, exists_of_mem_edgesTo hverifiedBy he⟩

/-- A verification's edges lead to it from valid identifiers. -/
theorem edges_parseVerification {path source : String} {parsed : ParsedInput}
    (h : parseVerification hash parsers path source = .ok (some parsed)) :
    parsed.node.origin = ⟨.verification, path ++ "#verification", none, none⟩ ∧
      validateId parsed.node.id = .ok () ∧ ∀ e ∈ parsed.edges, ∃ target,
        validateId target = .ok () ∧
          e = edge hash .verifiedBy target parsed.node.id parsed.node.status parsed.node.origin := by
  unfold parseVerification at h
  obtain ⟨_, -, h⟩ := bind_eq_ok.mp h
  generalize (if hasExtension path "toml" = true then FrontMatterKind.toml
    else FrontMatterKind.yaml) = kind at h
  dsimp only at h
  split at h
  · exact nomatch h
  split at h
  · exact nomatch h
  obtain ⟨_, hid, h⟩ := bind_eq_ok.mp h
  split at h
  · exact nomatch h
  split at h
  · exact nomatch h
  obtain ⟨status, -, h⟩ := bind_eq_ok.mp h
  obtain ⟨edges, hedges, h⟩ := bind_eq_ok.mp h
  obtain rfl := Option.some.inj (Except.ok.inj h)
  refine ⟨rfl, withCode_eq_ok.mp hid, fun e he => ?_⟩
  exact exists_of_mem_edgesTo hedges (mem_of_mem_sortEdges he)

/-- A parsed document is a verification manifest or a Markdown record. -/
theorem parseDocument_cases {config : IngestConfig} {path content : String} {parsed : ParsedInput}
    (h : parseDocument hash parsers config path content = .ok (some parsed)) :
    parseVerification hash parsers path content = .ok (some parsed) ∨
      ∃ body metadata,
        normalizeMarkdown hash parsers path body config.idPatterns metadata = .ok parsed := by
  unfold parseDocument at h
  split at h
  · exact Or.inl h
  split at h
  · unfold parseMarkdown at h
    obtain ⟨front?, -, h⟩ := bind_eq_ok.mp h
    split at h
    · exact nomatch Except.ok.inj h
    obtain ⟨_, -, h⟩ := bind_eq_ok.mp h
    split at h
    · exact nomatch h
    · exact nomatch Except.ok.inj h
    · exact nomatch h
    · obtain ⟨result, hresult, h⟩ := bind_eq_ok.mp h
      obtain rfl := Option.some.inj (Except.ok.inj h)
      exact Or.inr ⟨_, _, hresult⟩
  · exact nomatch Except.ok.inj h

/-- Whatever the document, what is parsed has the same shape. -/
theorem governed_parseDocument {config : IngestConfig} {path content : String}
    {parsed : ParsedInput} (h : parseDocument hash parsers config path content = .ok (some parsed)) :
    Governed hash parsed := by
  rcases parseDocument_cases h with h | ⟨body, metadata, h⟩
  · obtain ⟨horigin, -, hedges⟩ := edges_parseVerification h
    refine ⟨horigin ▸ DocumentOrigin.verification path, ?_, ?_, ?_⟩
    · intro e he
      obtain ⟨target, -, rfl⟩ := hedges e he
      rfl
    · intro hkind
      rw [horigin] at hkind
      exact nomatch hkind
    · intro _ e he
      obtain ⟨target, -, rfl⟩ := hedges e he
      rfl
  · obtain ⟨horigin, -, hedges⟩ := edges_normalizeMarkdown h
    refine ⟨horigin ▸ DocumentOrigin.markdown path, ?_, ?_, ?_⟩
    · intro e he
      obtain ⟨kind, target, -, rfl⟩ := hedges e he
      rfl
    · intro _ e he
      obtain ⟨kind, target, -, rfl⟩ := hedges e he
      rfl
    · intro hkind
      rw [horigin] at hkind
      exact nomatch hkind

/-- The relationships of a parsed document join valid identifiers. -/
theorem validateId_ends_of_parseDocument {config : IngestConfig} {path content : String}
    {parsed : ParsedInput} (h : parseDocument hash parsers config path content = .ok (some parsed))
    {e : EvidenceEdge} (he : e ∈ parsed.edges) :
    validateId e.sourceId = .ok () ∧ validateId e.targetId = .ok () := by
  rcases parseDocument_cases h with h | ⟨body, metadata, h⟩
  · obtain ⟨-, hid, hedges⟩ := edges_parseVerification h
    obtain ⟨target, htarget, rfl⟩ := hedges e he
    exact ⟨htarget, hid⟩
  · obtain ⟨-, hid, hedges⟩ := edges_normalizeMarkdown h
    obtain ⟨kind, target, htarget, rfl⟩ := hedges e he
    exact ⟨hid, htarget⟩

end Parse

/-! ### A batch -/

section Batch

variable (hash : String → String) (parsers : Parsers) (config : IngestConfig)

/-- What one input of a batch parses to; nothing when it is left out. -/
def parsedInput (input : DocumentInput × Nat) : Option ParsedInput :=
  if input.2 ≥ config.maxDocuments ∨ input.1.content.utf8ByteSize > config.maxFileBytes then none
  else match normalizePath input.1.path with
  | .error _ => none
  | .ok path => match parseDocument hash parsers config path input.1.content with
    | .error _ | .ok none => none
    | .ok (some parsed) => some parsed

/-- The documents of a batch that parse, in path order. -/
def parsedInputs (inputs : List DocumentInput) : List ParsedInput :=
  (sortBy (compareOn DocumentInput.path) inputs).zipIdx.filterMap (parsedInput hash parsers config)

end Batch

/-- The record of an identifier: that of the first document with it. -/
def definition (documents : List ParsedInput) (id : String) : Option EvidenceNode :=
  (documents.find? (·.node.id = id)).map (·.node)

/-- The documents whose record is the one their identifier has. -/
def accepted (documents : List ParsedInput) : List ParsedInput :=
  documents.filter fun document => definition documents document.node.id = some document.node

/-- The relationships of the accepted documents. -/
def relationships (documents : List ParsedInput) : List EvidenceEdge :=
  (accepted documents).flatMap (·.edges)

/-- The defining records are those of the accepted documents. -/
theorem definition_eq_some {documents : List ParsedInput} {id : String} {node : EvidenceNode} :
    definition documents id = some node ↔ ∃ d ∈ accepted documents, d.node = node ∧ d.node.id = id := by
  constructor
  · intro h
    obtain ⟨d, hfind, rfl⟩ := Option.map_eq_some_iff.mp h
    have hid : d.node.id = id := by simpa using List.find?_some hfind
    refine ⟨d, List.mem_filter.mpr ⟨List.mem_of_find?_eq_some hfind, ?_⟩, rfl, hid⟩
    rw [hid]
    exact decide_eq_true h
  · rintro ⟨d, hd, rfl, rfl⟩
    exact of_decide_eq_true (List.mem_filter.mp hd).2

/-- Accepted documents with one identifier have one record. -/
theorem node_eq_of_accepted {documents : List ParsedInput} {d d' : ParsedInput}
    (hd : d ∈ accepted documents) (hd' : d' ∈ accepted documents) (hid : d.node.id = d'.node.id) :
    d.node = d'.node := by
  have h := definition_eq_some.mpr ⟨d, hd, rfl, hid⟩
  rw [definition_eq_some.mpr ⟨d', hd', rfl, rfl⟩] at h
  exact (Option.some.inj h).symm

section Fold

variable {hash : String → String} {parsers : Parsers} {config : IngestConfig}
  {documents : List ParsedInput} {parsed : ParsedInput} {state : IngestState}

theorem definition_concat {id : String} :
    definition (documents ++ [parsed]) id =
      (definition documents id).or (if parsed.node.id = id then some parsed.node else none) := by
  unfold definition
  rw [List.find?_append, Option.map_or]
  by_cases h : parsed.node.id = id <;> simp [h]

/-- Earlier documents keep the definition. -/
theorem accepted_concat :
    accepted (documents ++ [parsed]) = accepted documents ++
      if definition (documents ++ [parsed]) parsed.node.id = some parsed.node then [parsed]
      else [] := by
  unfold accepted
  have hold : ∀ document ∈ documents,
      decide (definition (documents ++ [parsed]) document.node.id = some document.node) =
        decide (definition documents document.node.id = some document.node) := by
    intro document hdocument
    have hfound : (definition documents document.node.id).isSome := by
      unfold definition
      rw [Option.isSome_map, List.find?_isSome]
      exact ⟨document, hdocument, by simp⟩
    rw [definition_concat, Option.or_of_isSome hfound]
  rw [List.filter_append, List.filter_congr hold, List.filter_singleton]
  congr 1
  by_cases h : definition (documents ++ [parsed]) parsed.node.id = some parsed.node <;> simp [h]

/-- The accumulators after some documents. -/
structure Ingested (documents : List ParsedInput) (state : IngestState) : Prop where
  records : ∀ id : String, state.records[id]? = definition documents id
  keyed : KeyedBy EvidenceNode.id state.records
  edges : state.edges = indexBy EvidenceEdge.id (relationships documents)
  conflicts : state.conflicts = (accepted documents).flatMap (·.conflicts)

theorem ingested_empty : Ingested [] IngestState.empty where
  records id := by simp [IngestState.empty, definition]
  keyed := keyedBy_empty
  edges := rfl
  conflicts := rfl

theorem Ingested.report (h : Ingested documents state) (item : IngestDiagnostic) :
    Ingested documents (state.report item) :=
  ⟨h.records, h.keyed, h.edges, h.conflicts⟩

/-- A document with a defined identifier defines nothing. -/
theorem definition_concat_of_some {existing : EvidenceNode}
    (hdefined : definition documents parsed.node.id = some existing) (id : String) :
    definition (documents ++ [parsed]) id = definition documents id := by
  rw [definition_concat]
  by_cases hid : parsed.node.id = id
  · rw [← hid, hdefined]
    rfl
  · rw [if_neg hid, Option.or_none]

/-- The relationships and conflicts of a document that is accepted are added. -/
theorem Ingested.add (h : Ingested documents state) {records : StringMap EvidenceNode}
    (haccepted : accepted (documents ++ [parsed]) = accepted documents ++ [parsed])
    (hrecords : ∀ id : String, records[id]? = definition (documents ++ [parsed]) id)
    (hkeyed : KeyedBy EvidenceNode.id records) :
    Ingested (documents ++ [parsed]) { state with
      records
      edges := insertAll EvidenceEdge.id state.edges parsed.edges
      conflicts := state.conflicts ++ parsed.conflicts } := by
  refine ⟨hrecords, hkeyed, ?_, ?_⟩
  · have hedges : relationships (documents ++ [parsed]) = relationships documents ++ parsed.edges := by
      rw [relationships, relationships, haccepted]
      simp
    rw [hedges, h.edges]
    unfold indexBy insertAll
    rw [List.foldl_append]
  · show state.conflicts ++ parsed.conflicts = _
    rw [h.conflicts, haccepted]
    simp

/-- One accepted or refused document. -/
theorem Ingested.accept (h : Ingested documents state) (path : String) :
    Ingested (documents ++ [parsed]) (state.accept path parsed) := by
  have hget : state.records[parsed.node.id]? = definition documents parsed.node.id :=
    h.records parsed.node.id
  unfold IngestState.accept
  cases hdefined : definition documents parsed.node.id with
  | some existing =>
    have hdefinition := definition_concat_of_some hdefined
    have hrecords : ∀ id : String, state.records[id]? = definition (documents ++ [parsed]) id :=
      fun id => (h.records id).trans (hdefinition id).symm
    simp only [hget.trans hdefined]
    by_cases hsame : existing = parsed.node
    · -- defined the same way before: accepted again
      rw [if_neg (not_not.mpr hsame)]
      apply h.add ?_ hrecords h.keyed
      rw [accepted_concat, hdefinition, hdefined, hsame, if_pos rfl]
    · -- defined differently before: only a diagnostic is added
      have haccepted : accepted (documents ++ [parsed]) = accepted documents := by
        rw [accepted_concat, hdefinition, hdefined,
          if_neg (fun heq => hsame (Option.some.inj heq)), List.append_nil]
      rw [if_pos hsame]
      refine ⟨hrecords, h.keyed, ?_, ?_⟩
      · rw [relationships, haccepted]
        exact h.edges
      · rw [haccepted]
        exact h.conflicts
  | none =>
    -- the first definition of its identifier
    simp only [hget.trans hdefined]
    apply h.add
    · rw [accepted_concat, definition_concat, hdefined, if_pos rfl, Option.none_or, if_pos rfl]
    · intro id
      rw [ExtTreeMap.getElem?_insert, definition_concat, h.records]
      by_cases hid : parsed.node.id = id
      · subst hid
        simp [hdefined]
      · simp [hid]
    · exact @KeyedBy.insertAll _ _ _ _ _ state.records [parsed.node] _ _ h.keyed

/-- One turn of the loop. -/
theorem Ingested.step (h : Ingested documents state) (input : DocumentInput × Nat) :
    Ingested (documents ++ (parsedInput hash parsers config input).toList)
      (ingestOne hash parsers config state input) := by
  obtain ⟨input, index⟩ := input
  unfold ingestOne parsedInput
  dsimp only
  by_cases hindex : index ≥ config.maxDocuments
  · rw [if_pos hindex, if_pos (Or.inl hindex), Option.toList_none, List.append_nil]
    exact h.report _
  rw [if_neg hindex]
  by_cases hsize : input.content.utf8ByteSize > config.maxFileBytes
  · rw [if_pos hsize, if_pos (Or.inr hsize), Option.toList_none, List.append_nil]
    exact h.report _
  rw [if_neg hsize, if_neg (by tauto)]
  cases normalizePath input.path with
  | error message => simpa using h.report _
  | ok path =>
    dsimp only
    cases parseDocument hash parsers config path input.content with
    | error failure => simpa using h.report _
    | ok parsed? =>
      cases parsed? with
      | none => simpa using h
      | some parsed => simpa using h.accept path

/-- The whole loop. -/
theorem Ingested.foldl (h : Ingested documents state) (inputs : List (DocumentInput × Nat)) :
    Ingested (documents ++ inputs.filterMap (parsedInput hash parsers config))
      (inputs.foldl (ingestOne hash parsers config) state) := by
  induction inputs generalizing documents state with
  | nil => simpa using h
  | cons input inputs ih =>
    have hone : Ingested (documents ++ (parsedInput hash parsers config input).toList)
        (ingestOne hash parsers config state input) := h.step input
    have hstep := ih hone
    rw [List.append_assoc] at hstep
    have hlist : (parsedInput hash parsers config input).toList ++
        inputs.filterMap (parsedInput hash parsers config) =
          (input :: inputs).filterMap (parsedInput hash parsers config) := by
      cases hparsed : parsedInput hash parsers config input <;> simp [hparsed]
    rw [hlist] at hstep
    exact hstep

end Fold

section Results

variable {hash : String → String} {parsers : Parsers} {config : IngestConfig}
  {inputs : List DocumentInput}

theorem ingested_ingest :
    Ingested (parsedInputs hash parsers config inputs)
      ((sortBy (compareOn DocumentInput.path) inputs).zipIdx.foldl (ingestOne hash parsers config)
        IngestState.empty) :=
  ingested_empty.foldl _

/-- **The records of a batch** are its definitions. -/
theorem mem_ingest_records {node : EvidenceNode} :
    node ∈ (ingest hash parsers config inputs).records ↔
      definition (parsedInputs hash parsers config inputs) node.id = some node := by
  rw [← ingested_ingest.records]
  exact ingested_ingest.keyed.mem_values_iff

/-- The index of a batch's records looks up definitions. -/
theorem getElem?_ingest_records (id : String) :
    (indexBy EvidenceNode.id (ingest hash parsers config inputs).records :
      StringMap EvidenceNode)[id]? = definition (parsedInputs hash parsers config inputs) id := by
  rw [← ingested_ingest.records]
  exact ingested_ingest.keyed.getElem?_indexBy_values id

/-- **The edges of a batch** are the relationships of its accepted documents, the last one with an
    identifier. -/
theorem ingest_edges :
    (ingest hash parsers config inputs).edges = values (indexBy EvidenceEdge.id
      (relationships (parsedInputs hash parsers config inputs)) : StringMap EvidenceEdge) := by
  rw [← ingested_ingest.edges]
  rfl

theorem mem_relationships_of_mem_ingest {e : EvidenceEdge}
    (h : e ∈ (ingest hash parsers config inputs).edges) :
    e ∈ relationships (parsedInputs hash parsers config inputs) := by
  rw [ingest_edges, keyedBy_indexBy.mem_values_iff] at h
  rcases mem_or_of_getElem?_insertAll h with ⟨hmem, -⟩ | hnone
  · exact hmem
  · simp at hnone

/-- Every parsed document of a batch is governed. -/
theorem governed_parsedInputs {document : ParsedInput}
    (h : document ∈ parsedInputs hash parsers config inputs) : Governed hash document := by
  obtain ⟨input, -, hparsed⟩ := List.mem_filterMap.mp h
  unfold parsedInput at hparsed
  split at hparsed
  · exact nomatch hparsed
  split at hparsed
  · exact nomatch hparsed
  split at hparsed
  · exact nomatch hparsed
  · exact nomatch hparsed
  · next hdocument =>
    obtain rfl := Option.some.inj hparsed
    exact governed_parseDocument hdocument

/-- Records of a batch come from documents. -/
theorem documentOrigin_record {node : EvidenceNode}
    (h : node ∈ (ingest hash parsers config inputs).records) : DocumentOrigin node.origin := by
  have hdefinition := mem_ingest_records.mp h
  obtain ⟨document, hfind, rfl⟩ := Option.map_eq_some_iff.mp hdefinition
  exact (governed_parsedInputs (List.mem_of_find?_eq_some hfind)).origin

/-- Relationships of a batch come from documents. -/
theorem documentOrigin_edge {e : EvidenceEdge}
    (h : e ∈ (ingest hash parsers config inputs).edges) : DocumentOrigin e.origin := by
  obtain ⟨document, hdocument, hedge⟩ := List.mem_flatMap.mp (mem_relationships_of_mem_ingest h)
  have hgoverned := governed_parsedInputs (List.mem_filter.mp hdocument).1
  rw [hgoverned.edges e hedge]
  exact hgoverned.origin

end Results

end Rationale.Docs
