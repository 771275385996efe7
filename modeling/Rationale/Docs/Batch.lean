import Rationale.Docs.Definitions
import Mathlib.Data.List.Induction

namespace Rationale.Docs

open Std Rationale.Library Rationale.Text

/-!
# A batch of documents, input by input

What becomes of each input of a batch.

* `parseInput` — one input on its own: its size, its path and its contents;
* `judge`, `outcome` — one input in its batch: rejected, not governed, or accepted, by the number of
  inputs and the records before it;
* `ingestRun_eq` — the loop of `ingest` records these outcomes in path order;
* `accepts_iff`, `rejected_iff` — the arbitration by limit and by identifier.
-/

section Outcomes

/-- What becomes of one input. -/
inductive Outcome where
  | rejected (item : IngestDiagnostic)
  | ignored
  | accepted (parsed : ParsedInput)

/-- What an input adds to the diagnostics. -/
def Outcome.rejection : Outcome → Option IngestDiagnostic
  | .rejected item => some item
  | _ => none

/-- What an input adds to the evidence. -/
def Outcome.contribution : Outcome → Option ParsedInput
  | .accepted parsed => some parsed
  | _ => none

def IngestState.record (state : IngestState) : Outcome → IngestState
  | .rejected item => state.report item
  | .ignored => state
  | .accepted parsed =>
      { state with
        records := state.records.insertIfNew parsed.node.id parsed.node
        edges := insertAll EvidenceEdge.id state.edges parsed.edges
        conflicts := state.conflicts ++ parsed.conflicts }

def documentLimit (input : DocumentInput) : IngestDiagnostic :=
  diagnostic input.path "document_limit" "document batch exceeds the configured input limit"

def duplicateRecord (path : String) : IngestDiagnostic :=
  diagnostic path "duplicate_record" "record identifier is already defined by another document"

variable (hash : String → String) (parsers : Parsers) (config : IngestConfig)

/-- One input on its own: the document it parses to under its normalized path, nothing, or the
    diagnostic of the check it fails. -/
def parseInput (input : DocumentInput) :
    Except IngestDiagnostic (Option (String × ParsedInput)) :=
  if input.content.utf8ByteSize > config.maxFileBytes then
    .error (diagnostic input.path "file_too_large" "document exceeds the configured byte limit")
  else match normalizePath input.path with
  | .error message => .error (diagnostic input.path "invalid_path" message)
  | .ok path => match parseDocument hash parsers config path input.content with
    | .error (code, message) => .error (diagnostic path code message)
    | .ok none => .ok none
    | .ok (some parsed) => .ok (some (path, parsed))

/-- One input in its batch, after `index` others that define `records`. -/
def judge (records : StringMap EvidenceNode) (index : Nat) (input : DocumentInput) : Outcome :=
  if index ≥ config.maxDocuments then .rejected (documentLimit input)
  else match parseInput hash parsers config input with
  | .error item => .rejected item
  | .ok none => .ignored
  | .ok (some (path, parsed)) => match records[parsed.node.id]? with
    | some existing =>
        if existing ≠ parsed.node then .rejected (duplicateRecord path) else .accepted parsed
    | none => .accepted parsed

/-- The loop of `ingest` over inputs in path order. -/
def ingestRun (inputs : List DocumentInput) : IngestState :=
  inputs.zipIdx.foldl (ingestOne hash parsers config) IngestState.empty

/-- The inputs of a batch in path order. -/
def byPath (inputs : List DocumentInput) : List DocumentInput :=
  sortBy (compareOn DocumentInput.path) inputs

/-- The inputs of a batch with smaller paths, in path order. -/
def earlier (inputs : List DocumentInput) (input : DocumentInput) : List DocumentInput :=
  (byPath inputs).filter fun other =>
    compare other.path input.path = .lt

/-- The rank of an input by its path. -/
def rank (inputs : List DocumentInput) (input : DocumentInput) : Nat := (earlier inputs input).length

/-- What becomes of an input in its batch. -/
def outcome (inputs : List DocumentInput) (input : DocumentInput) : Outcome :=
  judge hash parsers config (ingestRun hash parsers config (earlier inputs input)).records
    (rank inputs input) input

/-- An input is accepted with this document. -/
def Accepts (inputs : List DocumentInput) (input : DocumentInput) (parsed : ParsedInput) : Prop :=
  outcome hash parsers config inputs input = .accepted parsed

end Outcomes

/-! ### One turn of the loop -/

section Turn

variable {hash : String → String} {parsers : Parsers} {config : IngestConfig}

theorem insertIfNew_of_getElem?_none {records : StringMap EvidenceNode} {node : EvidenceNode}
    (h : records[node.id]? = none) : records.insertIfNew node.id node = records.insert node.id node := by
  have hnew : node.id ∉ records := by
    rw [← ExtTreeMap.isSome_getElem?_iff_mem, h]
    exact Bool.false_ne_true
  ext id : 1
  rw [ExtTreeMap.getElem?_insert, ExtTreeMap.getElem?_insertIfNew]
  simp [hnew]

theorem insertIfNew_of_getElem?_some {records : StringMap EvidenceNode} {node existing : EvidenceNode}
    (h : records[node.id]? = some existing) : records.insertIfNew node.id node = records := by
  have hmem : node.id ∈ records := by
    rw [← ExtTreeMap.isSome_getElem?_iff_mem, h]
    rfl
  ext id : 1
  rw [ExtTreeMap.getElem?_insertIfNew]
  simp [hmem]

/-- The arbitration of a parsed document, with one way of adding it. -/
theorem accept_eq (state : IngestState) (path : String) (parsed : ParsedInput) :
    state.accept path parsed = state.record (match state.records[parsed.node.id]? with
      | some existing =>
          if existing ≠ parsed.node then .rejected (duplicateRecord path) else .accepted parsed
      | none => .accepted parsed) := by
  have hadd : ∀ records, records = state.records.insertIfNew parsed.node.id parsed.node →
      { state with
        records
        edges := insertAll EvidenceEdge.id state.edges parsed.edges
        conflicts := state.conflicts ++ parsed.conflicts } = state.record (.accepted parsed) := by
    rintro records rfl
    rfl
  unfold IngestState.accept
  cases hget : state.records[parsed.node.id]? with
  | none => exact hadd _ (insertIfNew_of_getElem?_none hget).symm
  | some existing =>
    dsimp only
    by_cases hsame : existing ≠ parsed.node
    · rw [if_pos hsame, if_pos hsame]
      rfl
    · rw [if_neg hsame, if_neg hsame]
      exact hadd _ (insertIfNew_of_getElem?_some hget).symm

/-- A turn of the loop records what becomes of its input. -/
theorem ingestOne_eq (state : IngestState) (input : DocumentInput) (index : Nat) :
    ingestOne hash parsers config state (input, index) =
      state.record (judge hash parsers config state.records index input) := by
  unfold ingestOne judge parseInput
  dsimp only
  by_cases hindex : index ≥ config.maxDocuments
  · rw [if_pos hindex, if_pos hindex]
    rfl
  rw [if_neg hindex, if_neg hindex]
  by_cases hsize : input.content.utf8ByteSize > config.maxFileBytes
  · rw [if_pos hsize, if_pos hsize]
    rfl
  rw [if_neg hsize, if_neg hsize]
  cases normalizePath input.path with
  | error message => rfl
  | ok path =>
    dsimp only
    cases parseDocument hash parsers config path input.content with
    | error failure => rfl
    | ok parsed? =>
      cases parsed? with
      | none => rfl
      | some parsed => exact accept_eq state path parsed

theorem ingestRun_concat (inputs : List DocumentInput) (input : DocumentInput) :
    ingestRun hash parsers config (inputs ++ [input]) =
      (ingestRun hash parsers config inputs).record (judge hash parsers config
        (ingestRun hash parsers config inputs).records inputs.length input) := by
  unfold ingestRun
  rw [List.zipIdx_append, List.foldl_append, Nat.zero_add]
  exact ingestOne_eq _ _ _

/-! ### Folding outcomes -/

variable (outcomes : List Outcome) (state : IngestState)

theorem records_foldl_record :
    (outcomes.foldl IngestState.record state).records = insertNewAll EvidenceNode.id state.records
      ((outcomes.filterMap Outcome.contribution).map ParsedInput.node) := by
  induction outcomes generalizing state with
  | nil => rfl
  | cons outcome outcomes ih =>
    rw [List.foldl_cons, ih]
    cases outcome <;> rfl

theorem edges_foldl_record :
    (outcomes.foldl IngestState.record state).edges = insertAll EvidenceEdge.id state.edges
      ((outcomes.filterMap Outcome.contribution).flatMap ParsedInput.edges) := by
  induction outcomes generalizing state with
  | nil => rfl
  | cons outcome outcomes ih =>
    rw [List.foldl_cons, ih]
    cases outcome with
    | accepted parsed =>
      rw [List.filterMap_cons_some (by rfl), List.flatMap_cons]
      exact List.foldl_append.symm
    | _ => rfl

theorem conflicts_foldl_record :
    (outcomes.foldl IngestState.record state).conflicts = state.conflicts ++
      (outcomes.filterMap Outcome.contribution).flatMap ParsedInput.conflicts := by
  induction outcomes generalizing state with
  | nil => exact (List.append_nil _).symm
  | cons outcome outcomes ih =>
    rw [List.foldl_cons, ih]
    cases outcome with
    | accepted parsed =>
      rw [List.filterMap_cons_some (by rfl), List.flatMap_cons]
      exact List.append_assoc _ _ _
    | _ => rfl

theorem diagnostics_foldl_record :
    (outcomes.foldl IngestState.record state).diagnostics =
      state.diagnostics ++ outcomes.filterMap Outcome.rejection := by
  induction outcomes generalizing state with
  | nil => exact (List.append_nil _).symm
  | cons outcome outcomes ih =>
    rw [List.foldl_cons, ih]
    cases outcome with
    | rejected item =>
      rw [List.filterMap_cons_some (by rfl)]
      exact List.append_assoc _ [item] _
    | _ => rfl

end Turn

/-! ### Judgements -/

section Judge

variable {hash : String → String} {parsers : Parsers} {config : IngestConfig}
  {records : StringMap EvidenceNode} {index : Nat} {input : DocumentInput}

/-- Every judgement has one of these reasons. -/
theorem judge_cases :
    config.maxDocuments ≤ index ∧
        judge hash parsers config records index input = .rejected (documentLimit input) ∨
    index < config.maxDocuments ∧ (
      (∃ item, parseInput hash parsers config input = .error item ∧
        judge hash parsers config records index input = .rejected item) ∨
      (parseInput hash parsers config input = .ok none ∧
        judge hash parsers config records index input = .ignored) ∨
      ∃ path parsed, parseInput hash parsers config input = .ok (some (path, parsed)) ∧ (
        (∃ existing, records[parsed.node.id]? = some existing ∧ existing ≠ parsed.node ∧
          judge hash parsers config records index input = .rejected (duplicateRecord path)) ∨
        (∀ existing, records[parsed.node.id]? = some existing → existing = parsed.node) ∧
          judge hash parsers config records index input = .accepted parsed)) := by
  unfold judge
  by_cases hindex : index ≥ config.maxDocuments
  · exact Or.inl ⟨hindex, if_pos hindex⟩
  refine Or.inr ⟨by omega, ?_⟩
  rw [if_neg hindex]
  cases parseInput hash parsers config input with
  | error item => exact Or.inl ⟨item, rfl, rfl⟩
  | ok document? =>
    rcases document? with - | ⟨path, parsed⟩
    · exact Or.inr (Or.inl ⟨rfl, rfl⟩)
    · refine Or.inr (Or.inr ⟨path, parsed, rfl, ?_⟩)
      dsimp only
      cases hget : records[parsed.node.id]? with
      | none => exact Or.inr ⟨fun _ hother => (nomatch hother), rfl⟩
      | some existing =>
        by_cases hsame : existing = parsed.node
        · refine Or.inr ⟨fun other hother => ?_, if_neg (not_not.mpr hsame)⟩
          exact Option.some.inj hother ▸ hsame
        · exact Or.inl ⟨existing, rfl, hsame, if_pos hsame⟩

theorem judge_accepted_iff {parsed : ParsedInput} :
    judge hash parsers config records index input = .accepted parsed ↔
      index < config.maxDocuments ∧
        (∃ path, parseInput hash parsers config input = .ok (some (path, parsed))) ∧
        ∀ existing, records[parsed.node.id]? = some existing → existing = parsed.node := by
  rcases @judge_cases hash parsers config records index input with
    ⟨hle, h⟩ | ⟨hlt, ⟨item, hparse, h⟩ | ⟨hparse, h⟩ | ⟨path, document, hparse, hjudged⟩⟩
  · rw [h]
    exact ⟨(nomatch ·), fun haccepted => absurd haccepted.1 (by omega)⟩
  · simp [h, hparse]
  · simp [h, hparse]
  rcases hjudged with ⟨existing, hget, hne, h⟩ | ⟨hunique, h⟩
  · -- another definition holds the identifier
    rw [h, hparse]
    refine ⟨(nomatch ·), ?_⟩
    rintro ⟨-, ⟨path', hdocument⟩, hsame⟩
    obtain ⟨-, rfl⟩ := Prod.mk.inj (Option.some.inj (Except.ok.inj hdocument))
    exact absurd (hsame existing hget) hne
  · rw [h, hparse]
    constructor
    · intro haccepted
      obtain rfl := Outcome.accepted.inj haccepted
      exact ⟨hlt, ⟨path, rfl⟩, hunique⟩
    · rintro ⟨-, ⟨path', hdocument⟩, -⟩
      obtain ⟨-, rfl⟩ := Prod.mk.inj (Option.some.inj (Except.ok.inj hdocument))
      rfl

theorem judge_rejected_iff {item : IngestDiagnostic} :
    judge hash parsers config records index input = .rejected item ↔
      config.maxDocuments ≤ index ∧ item = documentLimit input ∨
      index < config.maxDocuments ∧ parseInput hash parsers config input = .error item ∨
      index < config.maxDocuments ∧ ∃ path parsed existing,
        parseInput hash parsers config input = .ok (some (path, parsed)) ∧
          records[parsed.node.id]? = some existing ∧ existing ≠ parsed.node ∧
            item = duplicateRecord path := by
  rcases @judge_cases hash parsers config records index input with
    ⟨hle, h⟩ | ⟨hlt, ⟨failure, hparse, h⟩ | ⟨hparse, h⟩ | ⟨path, document, hparse, hjudged⟩⟩
  · -- over the limit nothing else is looked at
    have hlt : ¬ index < config.maxDocuments := by omega
    simp [h, hle, hlt, eq_comm]
  · have hle : ¬ config.maxDocuments ≤ index := by omega
    simp [h, hparse, hlt, hle]
  · -- an input that holds no document
    have hle : ¬ config.maxDocuments ≤ index := by omega
    simp [h, hparse, hle]
  rcases hjudged with ⟨existing, hget, hne, h⟩ | ⟨hunique, h⟩
  · -- another document has taken the identifier
    rw [h, hparse, Outcome.rejected.injEq]
    constructor
    · rintro rfl
      exact Or.inr (Or.inr ⟨hlt, path, document, existing, rfl, hget, hne, rfl⟩)
    · rintro (⟨hle, -⟩ | ⟨-, hfailure⟩ | ⟨-, path', document', existing', hdocument, -, -, rfl⟩)
      · omega
      · exact nomatch hfailure
      · -- the path of the diagnostic is the one that `parseInput` normalised
        obtain ⟨rfl, -⟩ := Prod.mk.inj (Option.some.inj (Except.ok.inj hdocument))
        rfl
  · -- the document is accepted, so no reason can hold
    rw [h, hparse]
    refine ⟨(nomatch ·), ?_⟩
    rintro (⟨hle, -⟩ | ⟨-, hfailure⟩ | ⟨-, path', document', existing, hdocument, hget, hne, -⟩)
    · omega
    · exact nomatch hfailure
    · obtain ⟨-, rfl⟩ := Prod.mk.inj (Option.some.inj (Except.ok.inj hdocument))
      exact absurd (hunique existing hget) hne

end Judge

/-! ### The loop -/

section Loop

variable {hash : String → String} {parsers : Parsers} {config : IngestConfig}
  {inputs pre post : List DocumentInput} {input : DocumentInput} {parsed : ParsedInput}

@[simp] theorem mem_byPath : input ∈ byPath inputs ↔ input ∈ inputs := mem_sortBy

theorem byPath_perm (inputs : List DocumentInput) : (byPath inputs).Perm inputs := sortBy_perm _

/-- Inputs with distinct paths are reached in strictly increasing order. -/
theorem byPath_pairwise (hpaths : (inputs.map DocumentInput.path).Nodup) :
    (byPath inputs).Pairwise
      (fun a b => compare a.path b.path = .lt) := by
  have hnodup : ((byPath inputs).map DocumentInput.path).Nodup :=
    ((byPath_perm inputs).map _).nodup_iff.mpr hpaths
  have hsorted := @sortBy_pairwise _ (compareOn DocumentInput.path) _ inputs
  refine (hsorted.and (List.pairwise_map.mp hnodup)).imp (fun {a b} h => ?_)
  have hle : (compare a.path b.path).isLE := h.1
  cases hcompare : compare a.path b.path with
  | lt => rfl
  | eq => exact absurd (Std.compare_eq_iff_eq.mp hcompare) h.2
  | gt =>
    rw [hcompare] at hle
    exact nomatch hle

/-- What stands before an input in path order are the inputs with smaller paths. -/
theorem earlier_eq (hpaths : (inputs.map DocumentInput.path).Nodup)
    (hsplit : byPath inputs = pre ++ input :: post) :
    earlier inputs input = pre := by
  have hsorted := byPath_pairwise hpaths
  rw [hsplit] at hsorted
  obtain ⟨-, hpost, hbefore⟩ := List.pairwise_append.mp hsorted
  have hlarger := (List.pairwise_cons.mp hpost).1
  unfold earlier
  rw [hsplit, List.filter_append]
  have hpre : pre.filter (fun other => compare other.path input.path = .lt) = pre :=
    List.filter_eq_self.mpr (fun other hother =>
      decide_eq_true (hbefore other hother input List.mem_cons_self))
  have hrest : (input :: post).filter (fun other => compare other.path input.path = .lt) = [] := by
    refine List.filter_eq_nil_iff.mpr (fun other hother hlt => ?_)
    rcases List.mem_cons.mp hother with rfl | hother
    · rw [@ReflCmp.compare_self _ compare] at hlt
      exact absurd hlt (by decide)
    · exact OrientedCmp.not_lt_of_lt (hlarger other hother) (of_decide_eq_true hlt)
  rw [hpre, hrest, List.append_nil]

theorem earlier_eq_of_concat (hpaths : (inputs.map DocumentInput.path).Nodup)
    (hpre : pre ++ [input] <+: byPath inputs) :
    earlier inputs input = pre := by
  obtain ⟨post, hpost⟩ := hpre
  refine @earlier_eq inputs pre post input hpaths ?_
  rw [← hpost, List.append_assoc]
  rfl

/-- **The loop records the outcome of every input it has reached.** -/
theorem ingestRun_eq (hpaths : (inputs.map DocumentInput.path).Nodup)
    (hpre : pre <+: byPath inputs) :
    ingestRun hash parsers config pre =
      (pre.map (outcome hash parsers config inputs)).foldl IngestState.record
        IngestState.empty := by
  induction pre using List.reverseRec with
  | nil => rfl
  | append_singleton pre input ih =>
    have hbefore := earlier_eq_of_concat hpaths hpre
    rw [ingestRun_concat, List.map_append, List.foldl_append,
      ← ih ((List.prefix_append pre [input]).trans hpre)]
    show _ = (ingestRun hash parsers config pre).record (outcome hash parsers config inputs input)
    unfold outcome rank
    rw [hbefore]

/-- Recording an outcome keeps the records there are. -/
theorem getElem?_record {state : IngestState} {outcome : Outcome} {id : String}
    {node : EvidenceNode} (h : state.records[id]? = some node) :
    (state.record outcome).records[id]? = some node := by
  cases outcome with
  | accepted parsed =>
    show (insertNewAll EvidenceNode.id state.records [parsed.node])[id]? = _
    rw [getElem?_insertNewAll, h]
    rfl
  | _ => exact h

/-- An accepted document defines its identifier from its turn on. -/
theorem getElem?_of_accepts (hpaths : (inputs.map DocumentInput.path).Nodup)
    (hpre : pre <+: byPath inputs) (hinput : input ∈ pre)
    (haccepts : Accepts hash parsers config inputs input parsed) :
    (ingestRun hash parsers config pre).records[parsed.node.id]? = some parsed.node := by
  induction pre using List.reverseRec with
  | nil => exact absurd hinput List.not_mem_nil
  | append_singleton pre last ih =>
    rw [ingestRun_concat]
    rcases List.mem_append.mp hinput with hinput | hinput
    · exact getElem?_record (ih ((List.prefix_append pre [last]).trans hpre) hinput)
    · -- its own turn: the identifier was unused or had this record
      obtain rfl := List.mem_singleton.mp hinput
      unfold Accepts outcome rank at haccepts
      rw [earlier_eq_of_concat hpaths hpre] at haccepts
      rw [haccepts]
      show (insertNewAll EvidenceNode.id (ingestRun hash parsers config pre).records
        [parsed.node])[parsed.node.id]? = _
      rw [getElem?_insertNewAll]
      cases hget : (ingestRun hash parsers config pre).records[parsed.node.id]? with
      | none => simp
      | some existing =>
        rw [(judge_accepted_iff.mp haccepts).2.2 existing hget]
        rfl

/-- The records after some inputs are those of the accepted ones among them. -/
theorem getElem?_ingestRun (hpaths : (inputs.map DocumentInput.path).Nodup)
    (hpre : pre <+: byPath inputs) {id : String}
    {node : EvidenceNode} :
    (ingestRun hash parsers config pre).records[id]? = some node ↔
      ∃ input ∈ pre, ∃ parsed, Accepts hash parsers config inputs input parsed ∧
        parsed.node = node ∧ node.id = id := by
  constructor
  · intro h
    rw [ingestRun_eq hpaths hpre, records_foldl_record] at h
    rcases mem_or_of_getElem?_insertNewAll h with h | ⟨-, hmem, hid⟩
    · simp [IngestState.empty] at h
    · obtain ⟨parsed, hparsed, rfl⟩ := List.mem_map.mp hmem
      obtain ⟨result, hresult, hcontribution⟩ := List.mem_filterMap.mp hparsed
      obtain ⟨input, hinput, rfl⟩ := List.mem_map.mp hresult
      refine ⟨input, hinput, parsed, ?_, rfl, hid⟩
      unfold Accepts
      cases houtcome : outcome hash parsers config inputs input with
      | accepted document =>
        rw [houtcome] at hcontribution
        rw [show document = parsed from Option.some.inj hcontribution]
      | _ =>
        rw [houtcome] at hcontribution
        cases hcontribution
  · rintro ⟨input, hinput, parsed, haccepts, rfl, rfl⟩
    exact getElem?_of_accepts hpaths hpre hinput haccepts

end Loop

/-! ### Arbitration -/

section Arbitration

variable {hash : String → String} {parsers : Parsers} {config : IngestConfig}
  {inputs : List DocumentInput} {input : DocumentInput} {parsed : ParsedInput}

theorem mem_earlier {other : DocumentInput} :
    other ∈ earlier inputs input ↔ other ∈ inputs ∧ compare other.path input.path = .lt := by
  unfold earlier
  rw [List.mem_filter, mem_byPath, decide_eq_true_eq]

theorem prefix_earlier (hpaths : (inputs.map DocumentInput.path).Nodup) (hinput : input ∈ inputs) :
    earlier inputs input <+: byPath inputs := by
  have hmem : input ∈ byPath inputs := mem_byPath.mpr hinput
  obtain ⟨pre, post, hsplit⟩ := List.append_of_mem hmem
  rw [earlier_eq hpaths hsplit, hsplit]
  exact List.prefix_append pre _

/-- The records an input finds are those of the accepted documents with smaller paths. -/
theorem getElem?_earlier (hpaths : (inputs.map DocumentInput.path).Nodup) (hinput : input ∈ inputs)
    {id : String} {node : EvidenceNode} :
    (ingestRun hash parsers config (earlier inputs input)).records[id]? = some node ↔
      ∃ other ∈ inputs, compare other.path input.path = .lt ∧
        ∃ document, Accepts hash parsers config inputs other document ∧
          document.node = node ∧ node.id = id := by
  rw [getElem?_ingestRun hpaths (prefix_earlier hpaths hinput)]
  simp only [mem_earlier, and_assoc]

/-- **First definition wins.** -/
theorem accepts_iff (hpaths : (inputs.map DocumentInput.path).Nodup) (hinput : input ∈ inputs) :
    Accepts hash parsers config inputs input parsed ↔
      rank inputs input < config.maxDocuments ∧
        (∃ path, parseInput hash parsers config input = .ok (some (path, parsed))) ∧
        ∀ other ∈ inputs, compare other.path input.path = .lt → ∀ document,
          Accepts hash parsers config inputs other document →
            document.node.id = parsed.node.id → document.node = parsed.node := by
  unfold Accepts outcome
  rw [judge_accepted_iff]
  refine and_congr_right (fun _ => and_congr_right (fun _ => ?_))
  constructor
  · intro h other hother hlt document hdocument hid
    exact h document.node
      ((getElem?_earlier hpaths hinput).mpr ⟨other, hother, hlt, document, hdocument, rfl, hid⟩)
  · intro h existing hexisting
    obtain ⟨other, hother, hlt, document, hdocument, rfl, hid⟩ :=
      (getElem?_earlier hpaths hinput).mp hexisting
    exact h other hother hlt document hdocument hid

/-- **What is rejected**, and with which diagnostic. -/
theorem rejected_iff (hpaths : (inputs.map DocumentInput.path).Nodup) (hinput : input ∈ inputs)
    {item : IngestDiagnostic} :
    outcome hash parsers config inputs input = .rejected item ↔
      config.maxDocuments ≤ rank inputs input ∧ item = documentLimit input ∨
      rank inputs input < config.maxDocuments ∧
        parseInput hash parsers config input = .error item ∨
      rank inputs input < config.maxDocuments ∧ ∃ path parsed,
        parseInput hash parsers config input = .ok (some (path, parsed)) ∧
          item = duplicateRecord path ∧
          ∃ other ∈ inputs, compare other.path input.path = .lt ∧ ∃ document,
            Accepts hash parsers config inputs other document ∧
              document.node.id = parsed.node.id ∧ document.node ≠ parsed.node := by
  unfold outcome
  rw [judge_rejected_iff]
  refine or_congr_right (or_congr_right (and_congr_right (fun _ => ?_)))
  constructor
  · rintro ⟨path, parsed, existing, hparsed, hexisting, hne, hitem⟩
    obtain ⟨other, hother, hlt, document, hdocument, rfl, hid⟩ :=
      (getElem?_earlier hpaths hinput).mp hexisting
    exact ⟨path, parsed, hparsed, hitem, other, hother, hlt, document, hdocument, hid, hne⟩
  · rintro ⟨path, parsed, hparsed, hitem, other, hother, hlt, document, hdocument, hid, hne⟩
    exact ⟨path, parsed, document.node, hparsed,
      (getElem?_earlier hpaths hinput).mpr ⟨other, hother, hlt, document, hdocument, rfl, hid⟩,
      hne, hitem⟩

/-- Accepted documents of a batch with one identifier have one record. -/
theorem node_eq_of_accepts (hpaths : (inputs.map DocumentInput.path).Nodup)
    {input' : DocumentInput} {parsed' : ParsedInput} (hinput : input ∈ inputs)
    (hinput' : input' ∈ inputs) (h : Accepts hash parsers config inputs input parsed)
    (h' : Accepts hash parsers config inputs input' parsed') (hid : parsed.node.id = parsed'.node.id) :
    parsed.node = parsed'.node := by
  have hwhole := List.prefix_refl (byPath inputs)
  have hget := getElem?_of_accepts hpaths hwhole (mem_byPath.mpr hinput) h
  rw [hid, getElem?_of_accepts hpaths hwhole (mem_byPath.mpr hinput') h'] at hget
  exact (Option.some.inj hget).symm

end Arbitration

end Rationale.Docs
