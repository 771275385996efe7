import Rationale.Kernel.Validate
import Rationale.Library.Fallible
import Rationale.Wire.Model

namespace Rationale.Wire

open Rationale.Library Rationale.Kernel

/-!
# The decoders accept exactly what the encoders write

A decoder is exact for an encoder when it accepts a tree exactly if the tree is the encoding of the
decoded value, up to the order of keys.

* `Exact` — this, for one decoder and its encoder;
* `exact_closedString`, `exact_listOf`, `exact_record` — the pieces;
* `exact_kernelRequest`, `exact_kernelResponse` — the two messages, from their parts;
* `decoders_exact` — decoding inverts encoding, and nothing else is accepted.
-/

/-- The decoder accepts the encoding of each value, with the keys of its objects in any order, and
    nothing else. -/
def Exact {α : Type} (decode : Json → Except String α) (encode : α → Json) : Prop :=
  ∀ json a, decode json = .ok a ↔ json.sortKeys = encode a

section Pieces

variable {α : Type} {decode : Json → Except String α} {encode : α → Json} {context name : String}
  {values : List (String × Json)}

theorem exact_string : Exact string Json.string := by
  intro json a
  rw [Json.sortKeys_eq_string_iff]
  cases json <;> simp [string, decodeError]

theorem exact_integer : Exact integer Json.int := by
  intro json a
  rw [Json.sortKeys_eq_int_iff]
  cases json <;> simp [integer, decodeError]

/-- A closed set of strings decodes exactly the strings of its table. -/
theorem exact_closedString {expected : String} {table : List (String × α)} {toString : α → String}
    (hkeys : (table.map Prod.fst).Nodup)
    (htable : ∀ value a, (value, a) ∈ table ↔ value = toString a) :
    Exact (closedString context expected table) fun a => .string (toString a) := by
  intro json a
  rw [Json.sortKeys_eq_string_iff]
  cases json with
  | string value =>
    have hdecode : closedString context expected table (.string value) = .ok a ↔
        table.lookup value = some a := by
      cases h : table.lookup value <;> simp [closedString, h, decodeError]
    rw [hdecode, lookup_eq_some_iff hkeys, htable, Json.string.injEq]
  | _ => simp [closedString, decodeError]

/-- The accumulating loop of `list` collects the decoded items in reverse. -/
theorem foldl_listOf (items : List Json) (decoded : List α) :
    items.foldl (fun result value => do
        let decoded ← result
        let item ← decode value
        return item :: decoded) (.ok decoded) =
      (items.mapM decode).map fun l => l.reverse ++ decoded := by
  induction items generalizing decoded with
  | nil => rfl
  | cons item items ih =>
    rw [List.foldl_cons, List.mapM_cons]
    cases hitem : decode item with
    | error e =>
      -- a failure stays
      have hfail : ∀ rest : List Json, rest.foldl (fun result value => do
          let decoded ← result
          let item ← decode value
          return item :: decoded) (.error e : Except String (List α)) = .error e := by
        intro rest
        induction rest with
        | nil => rfl
        | cons _ rest ih => exact ih
      exact hfail items
    | ok a =>
      have hrest := ih (a :: decoded)
      show List.foldl _ (Except.ok (a :: decoded)) items = _
      rw [hrest]
      cases items.mapM decode with
      | error e => rfl
      | ok l =>
        show Except.ok (l.reverse ++ a :: decoded) = Except.ok ((a :: l).reverse ++ decoded)
        simp

theorem mapM_eq_ok_iff (h : Exact decode encode) {items : List Json} {l : List α} :
    items.mapM decode = .ok l ↔ items.map Json.sortKeys = l.map encode := by
  induction items generalizing l with
  | nil =>
    show Except.ok [] = Except.ok l ↔ _
    cases l <;> simp
  | cons item items ih =>
    rw [List.mapM_cons, bind_eq_ok]
    simp only [bind_eq_ok, h item]
    cases l with
    | nil =>
      constructor
      · rintro ⟨a, -, l, -, hcons⟩
        exact nomatch Except.ok.inj hcons
      · exact nofun
    | cons b l =>
      rw [List.map_cons, List.map_cons, List.cons.injEq, ← ih]
      constructor
      · rintro ⟨a, ha, l', hl', hcons⟩
        obtain ⟨rfl, rfl⟩ := List.cons.inj (Except.ok.inj hcons)
        exact ⟨ha, hl'⟩
      · rintro ⟨hb, hl⟩
        exact ⟨b, hb, l, hl, rfl⟩

theorem exact_listOf (h : Exact decode encode) :
    Exact (listOf decode) fun l => .list (l.map encode) := by
  intro json l
  rw [Json.sortKeys_eq_list_iff]
  cases json with
  | list items =>
    have hmap : listOf decode (.list items) = (items.mapM decode).map id := by
      show (List.foldl _ (Except.ok []) items).map List.reverse = _
      rw [foldl_listOf]
      cases items.mapM decode with
      | error e => rfl
      | ok l => simp [Except.map]
    rw [hmap, map_eq_ok]
    simp [mapM_eq_ok_iff h]
  | _ => simp [listOf, decodeError]

/-- A required field is there, and decodes. -/
theorem required_eq_ok (h : Exact decode encode) {a : α} :
    required context name decode values = .ok a ↔
      (values.lookup name).map Json.sortKeys = some (encode a) := by
  cases hlookup : values.lookup name with
  | none => simp [required, hlookup]
  | some value => simp [required, hlookup, mapError_eq_ok, h value]

/-- An optional field is absent, or decodes; it cannot be null. -/
theorem optional_eq_ok (h : Exact decode encode) {a : Option α} :
    optional context name decode values = .ok a ↔
      (values.lookup name).map Json.sortKeys = a.map encode := by
  cases hlookup : values.lookup name with
  | none => cases a <;> simp [optional, hlookup]
  | some value => cases a <;> simp [optional, hlookup, mapError_eq_ok, map_eq_ok, h value]

theorem fields_eq_ok {allowed : List String} {json : Json} :
    fields context allowed json = .ok values ↔
      json = .assoc values ∧ (values.map Prod.fst).Nodup ∧
        ∀ field ∈ values, field.1 ∈ allowed := by
  cases json with
  | assoc values' =>
    cases hduplicate : duplicate (values'.map Prod.fst) with
    | some key =>
      -- a repeated key is refused before the known ones are looked at
      have hnot : ¬ (values'.map Prod.fst).Nodup := by
        rw [← duplicate_eq_none_iff, hduplicate]
        exact nofun
      simp only [fields, hduplicate]
      constructor
      · exact nofun
      · rintro ⟨heq, hnodup, -⟩
        rw [Json.assoc.inj heq] at hnot
        exact absurd hnodup hnot
    | none =>
      have hnodup := duplicate_eq_none_iff.mp hduplicate
      cases hfind : values'.find? fun field => field.1 ∉ allowed with
      | some field =>
        have hmem := List.mem_of_find?_eq_some hfind
        have hunknown : field.1 ∉ allowed := by simpa using List.find?_some hfind
        simp only [fields, hduplicate, hfind]
        constructor
        · exact nofun
        · rintro ⟨heq, -, hall⟩
          rw [← Json.assoc.inj heq] at hall
          exact absurd (hall field hmem) hunknown
      | none =>
        have hall : ∀ field ∈ values', field.1 ∈ allowed := by
          intro field hfield
          simpa using List.find?_eq_none.mp hfind field hfield
        simp only [fields, hduplicate, hfind]
        constructor
        · intro h
          obtain rfl := Except.ok.inj h
          exact ⟨rfl, hnodup, hall⟩
        · rintro ⟨heq, -, -⟩
          rw [Json.assoc.inj heq]
  | _ => simp [fields, decodeError]

/-- **Records.** Reading the fields of an object returns `a` exactly when the object has, up to the
    order of keys, the fields written for `a`, provided that the reader finds them so. -/
theorem record_eq_ok {allowed : List String} {read : List (String × Json) → Except String α}
    {written : List (String × Json)} {json : Json} {a : α}
    (hnodup : (written.map Prod.fst).Nodup)
    (hallowed : ∀ name ∈ written.map Prod.fst, name ∈ allowed)
    (hread : ∀ values, json = .assoc values → (read values = .ok a ↔
      ∀ name ∈ allowed, (values.lookup name).map Json.sortKeys = written.lookup name)) :
    (fields context allowed json >>= read) = .ok a ↔ json.sortKeys = .object written := by
  rw [bind_eq_ok]
  constructor
  · -- a key that is not written would be read as absent, so the keys are those written
    rintro ⟨values, hfields, hok⟩
    obtain ⟨rfl, hkeys, hknown⟩ := fields_eq_ok.mp hfields
    refine Json.sortKeys_assoc_eq_object_of_names allowed hnodup hallowed hkeys ?_
      ((hread values rfl).mp hok)
    intro name hname
    obtain ⟨field, hfield, rfl⟩ := List.mem_map.mp hname
    exact hknown field hfield
  · intro hsort
    obtain ⟨values, rfl⟩ := Json.sortKeys_eq_object hsort
    obtain ⟨hkeys, hlookup⟩ := (Json.sortKeys_assoc_eq_object_iff hnodup).mp hsort
    have hknown : ∀ field ∈ values, field.1 ∈ allowed := by
      intro field hfield
      apply hallowed
      exact (Json.mem_keys_iff_of_sortKeys hnodup hsort).mp (List.mem_map_of_mem hfield)
    exact ⟨values, fields_eq_ok.mpr ⟨rfl, hkeys, hknown⟩,
      (hread values rfl).mpr (fun name _ => hlookup name)⟩

theorem lookup_optionalField (name' : String) (value : Option Json) :
    (optionalField name value).lookup name' = if name' = name then value else none := by
  cases value with
  | none => simp [optionalField]
  | some value =>
    by_cases h : name' = name
    · simp [optionalField, h]
    · simp [optionalField, h]

/-- Returning a decoded value. -/
theorem pure_eq_ok {a b : α} : (pure a : Except String α) = .ok b ↔ a = b :=
  ⟨Except.ok.inj, congrArg _⟩

end Pieces

/-! ### Closed strings -/

theorem exact_nodeKind : Exact nodeKindOfYojson fun kind => .string (stringOfNodeKind kind) := by
  refine exact_closedString (by decide) (fun value kind => ?_)
  cases kind <;> simp [stringOfNodeKind]

theorem exact_edgeKind : Exact edgeKindOfYojson fun kind => .string (stringOfEdgeKind kind) := by
  refine exact_closedString (by decide) (fun value kind => ?_)
  cases kind <;> simp [stringOfEdgeKind]

theorem exact_recordStatus :
    Exact recordStatusOfYojson fun status => .string (stringOfRecordStatus status) := by
  refine exact_closedString (by decide) (fun value status => ?_)
  cases status <;> simp [stringOfRecordStatus]

theorem exact_sourceKind :
    Exact sourceKindOfYojson fun kind => .string (stringOfSourceKind kind) := by
  refine exact_closedString (by decide) (fun value kind => ?_)
  cases kind <;> simp [stringOfSourceKind]

theorem exact_verdict : Exact verdictOfYojson fun verdict => .string (stringOfVerdict verdict) := by
  refine exact_closedString (by decide) (fun value verdict => ?_)
  cases verdict <;> simp [stringOfVerdict]

theorem exact_gapCode : Exact gapCodeOfYojson fun code => .string (stringOfGapCode code) := by
  refine exact_closedString (by decide) (fun value code => ?_)
  cases code <;> simp [stringOfGapCode]

theorem exact_errorCode : Exact errorCodeOfYojson fun code => .string (stringOfErrorCode code) := by
  refine exact_closedString (by decide) (fun value code => ?_)
  cases code <;> simp [stringOfErrorCode]

/-! ### Records -/

theorem exact_origin : Exact originOfYojson originToYojson := by
  intro json origin
  obtain ⟨kind, locator, revision, observedAt⟩ := origin
  refine record_eq_ok ?_ ?_ (fun values _ => ?_)
  · cases revision <;> cases observedAt <;> simp [originFields, optionalField]
  · cases revision <;> cases observedAt <;> simp [originFields, optionalField]
  · simp only [bind_eq_ok, required_eq_ok exact_sourceKind, required_eq_ok exact_string,
      optional_eq_ok exact_string]
    simp [pure_eq_ok, originFields, List.lookup_cons, lookup_append, lookup_optionalField]
    tauto

theorem exact_evidenceNode : Exact evidenceNodeOfYojson evidenceNodeToYojson := by
  intro json node
  obtain ⟨id, kind, status, subjectId, outcomeId, origin⟩ := node
  refine record_eq_ok ?_ ?_ (fun values _ => ?_)
  · cases subjectId <;> cases outcomeId <;> simp [evidenceNodeFields, optionalField]
  · cases subjectId <;> cases outcomeId <;> simp [evidenceNodeFields, optionalField]
  · simp only [bind_eq_ok, required_eq_ok exact_nodeKind, required_eq_ok exact_recordStatus,
      required_eq_ok exact_origin, required_eq_ok exact_string, optional_eq_ok exact_string]
    simp [pure_eq_ok, evidenceNodeFields, List.lookup_cons, lookup_append, lookup_optionalField]
    tauto

theorem exact_evidenceEdge : Exact evidenceEdgeOfYojson evidenceEdgeToYojson := by
  intro json edge
  refine record_eq_ok ?_ ?_ (fun values _ => ?_)
  · simp [evidenceEdgeFields]
  · simp [evidenceEdgeFields]
  · obtain ⟨id, kind, sourceId, targetId, status, origin⟩ := edge
    simp only [bind_eq_ok, required_eq_ok exact_edgeKind, required_eq_ok exact_recordStatus,
      required_eq_ok exact_origin, required_eq_ok exact_string]
    simp [pure_eq_ok, evidenceEdgeFields, List.lookup_cons]
    tauto

theorem exact_conflict : Exact conflictOfYojson conflictToYojson := by
  intro json conflict
  refine record_eq_ok ?_ ?_ (fun values _ => ?_)
  · simp [conflictFields]
  · simp [conflictFields]
  · obtain ⟨leftNodeId, rightNodeId, ruleId⟩ := conflict
    simp only [bind_eq_ok, required_eq_ok exact_string]
    simp [pure_eq_ok, conflictFields, List.lookup_cons]

theorem exact_proofGoal : Exact proofGoalOfYojson proofGoalToYojson := by
  intro json goal
  refine record_eq_ok ?_ ?_ (fun values _ => ?_)
  · simp [proofGoalFields]
  · simp [proofGoalFields]
  · obtain ⟨targetId, anchorKinds⟩ := goal
    simp only [bind_eq_ok, required_eq_ok exact_string, required_eq_ok (exact_listOf exact_nodeKind)]
    simp [pure_eq_ok, proofGoalFields, List.lookup_cons]
    tauto

/-- **Requests.** -/
theorem exact_kernelRequest : Exact kernelRequestOfYojson kernelRequestToYojson := by
  intro json request
  refine record_eq_ok ?_ ?_ (fun values _ => ?_)
  · simp [kernelRequestFields]
  · simp [kernelRequestFields]
  · obtain ⟨protocolVersion, requestId, snapshotId, goal, nodes, edges, conflicts⟩ := request
    simp only [bind_eq_ok, required_eq_ok exact_integer, required_eq_ok exact_string,
      required_eq_ok exact_proofGoal, required_eq_ok (exact_listOf exact_evidenceNode),
      required_eq_ok (exact_listOf exact_evidenceEdge),
      required_eq_ok (exact_listOf exact_conflict)]
    simp [pure_eq_ok, kernelRequestFields, List.lookup_cons]
    tauto

theorem exact_gap : Exact gapOfYojson gapToYojson := by
  intro json gap
  obtain ⟨code, fromNodeId, toKind⟩ := gap
  refine record_eq_ok ?_ ?_ (fun values _ => ?_)
  · cases fromNodeId <;> cases toKind <;> simp [gapFields, optionalField]
  · cases fromNodeId <;> cases toKind <;> simp [gapFields, optionalField]
  · simp only [bind_eq_ok, required_eq_ok exact_gapCode, optional_eq_ok exact_string,
      optional_eq_ok exact_nodeKind]
    simp [pure_eq_ok, gapFields, List.lookup_cons, lookup_append, lookup_optionalField]

theorem exact_proofChain : Exact proofChainOfYojson proofChainToYojson := by
  intro json chain
  refine record_eq_ok ?_ ?_ (fun values _ => ?_)
  · simp [proofChainFields]
  · simp [proofChainFields]
  · obtain ⟨nodeIds, edgeIds, ruleIds⟩ := chain
    simp only [bind_eq_ok, required_eq_ok (exact_listOf exact_string)]
    simp [pure_eq_ok, proofChainFields, strings, List.lookup_cons]
    tauto

theorem exact_proofResult : Exact proofResultOfYojson proofResultToYojson := by
  intro json proof
  refine record_eq_ok ?_ ?_ (fun values _ => ?_)
  · simp [proofResultFields]
  · simp [proofResultFields]
  · obtain ⟨verdict, proofChains, gaps, conflicts⟩ := proof
    simp only [bind_eq_ok, required_eq_ok exact_verdict,
      required_eq_ok (exact_listOf exact_proofChain), required_eq_ok (exact_listOf exact_gap),
      required_eq_ok (exact_listOf exact_conflict)]
    simp [pure_eq_ok, proofResultFields, List.lookup_cons]
    tauto

theorem exact_protocolError : Exact protocolErrorOfYojson protocolErrorToYojson := by
  intro json error
  refine record_eq_ok ?_ ?_ (fun values _ => ?_)
  · simp [protocolErrorFields]
  · simp [protocolErrorFields]
  · obtain ⟨code, message⟩ := error
    simp only [bind_eq_ok, required_eq_ok exact_errorCode, required_eq_ok exact_string]
    simp [pure_eq_ok, protocolErrorFields, List.lookup_cons]

theorem kernelResponseFields_nodup (response : KernelResponse) :
    ((kernelResponseFields response).map Prod.fst).Nodup := by
  cases response <;> simp [kernelResponseFields]

/-- The tag of a response. -/
def kernelResponseStatus : KernelResponse → String
  | .proof .. => "proof"
  | .error .. => "error"

theorem lookup_status {values : List (String × Json)} {response : KernelResponse}
    (h : (Json.assoc values).sortKeys = kernelResponseToYojson response) :
    values.lookup "status" = some (.string (kernelResponseStatus response)) := by
  have hlookup :=
    ((Json.sortKeys_assoc_eq_object_iff (kernelResponseFields_nodup response)).mp h).2 "status"
  have hwritten : (kernelResponseFields response).lookup "status" =
      some (.string (kernelResponseStatus response)) := by
    cases response <;> simp [kernelResponseFields, kernelResponseStatus, List.lookup_cons]
  rw [hwritten, Option.map_eq_some_iff] at hlookup
  obtain ⟨tag, htag, hsort⟩ := hlookup
  rw [htag, Json.sortKeys_eq_string_iff.mp hsort]

theorem proofResponse_eq_ok {values : List (String × Json)} {response : KernelResponse}
    (hstatus : values.lookup "status" = some (.string "proof")) :
    (fields "proof response" ["proof", "protocol_version", "request_id", "snapshot_id", "status"]
      (.assoc values) >>= proofResponseOfFields) = .ok response ↔
    (Json.assoc values).sortKeys = kernelResponseToYojson response := by
  cases response with
  | proof protocolVersion requestId snapshotId proof =>
    refine record_eq_ok ?_ ?_ (fun values' hvalues => ?_)
    · exact kernelResponseFields_nodup _
    · simp [kernelResponseFields]
    · obtain rfl := Json.assoc.inj hvalues
      simp only [proofResponseOfFields, bind_eq_ok, required_eq_ok exact_integer,
        required_eq_ok exact_string, required_eq_ok exact_proofResult]
      simp [pure_eq_ok, kernelResponseFields, List.lookup_cons, hstatus]
      tauto
  | error protocolVersion requestId error =>
    constructor
    · -- this record never reads as an error
      simp only [proofResponseOfFields, bind_eq_ok, pure_eq_ok]
      simp
    · intro h
      rw [lookup_status h] at hstatus
      simp [kernelResponseStatus] at hstatus

theorem errorResponse_eq_ok {values : List (String × Json)} {response : KernelResponse}
    (hstatus : values.lookup "status" = some (.string "error")) :
    (fields "error response" ["error", "protocol_version", "request_id", "status"]
      (.assoc values) >>= errorResponseOfFields) = .ok response ↔
    (Json.assoc values).sortKeys = kernelResponseToYojson response := by
  cases response with
  | error protocolVersion requestId error =>
    refine record_eq_ok ?_ ?_ (fun values' hvalues => ?_)
    · exact kernelResponseFields_nodup _
    · simp [kernelResponseFields]
    · obtain rfl := Json.assoc.inj hvalues
      simp only [errorResponseOfFields, bind_eq_ok, required_eq_ok exact_integer,
        required_eq_ok exact_string, required_eq_ok exact_protocolError]
      simp [pure_eq_ok, kernelResponseFields, List.lookup_cons, hstatus]
      tauto
  | proof protocolVersion requestId snapshotId proof =>
    constructor
    · -- this record never reads as a proof
      simp only [errorResponseOfFields, bind_eq_ok, pure_eq_ok]
      simp
    · intro h
      rw [lookup_status h] at hstatus
      simp [kernelResponseStatus] at hstatus

/-- **Responses.** The tag picks the record that is read, and is one of its fields. -/
theorem exact_kernelResponse : Exact kernelResponseOfYojson kernelResponseToYojson := by
  intro json response
  by_cases hassoc : ∃ values, json = .assoc values
  · obtain ⟨values, rfl⟩ := hassoc
    by_cases hproof : values.lookup "status" = some (.string "proof")
    · rw [← proofResponse_eq_ok hproof]
      simp [kernelResponseOfYojson, hproof]
    by_cases herror : values.lookup "status" = some (.string "error")
    · rw [← errorResponse_eq_ok herror]
      simp [kernelResponseOfYojson, herror]
    -- any other tag, or none
    constructor
    · intro h
      dsimp only [kernelResponseOfYojson] at h
      split at h
      · exact absurd ‹_› hproof
      · exact absurd ‹_› herror
      · exact nomatch h
      · exact nomatch h
    · intro h
      have hstatus := lookup_status h
      cases response with
      | proof => exact absurd hstatus hproof
      | error => exact absurd hstatus herror
  · constructor
    · intro h
      cases json with
      | assoc values => exact absurd ⟨values, rfl⟩ hassoc
      | _ => simp [kernelResponseOfYojson, decodeError] at h
    · exact fun h => absurd (Json.sortKeys_eq_object h) hassoc

/-! ### Encodings are sorted -/

@[simp] theorem sortKeys_originToYojson (origin : Origin) :
    (originToYojson origin).sortKeys = originToYojson origin := by
  apply Json.sortKeys_object
  obtain ⟨kind, locator, revision, observedAt⟩ := origin
  cases revision <;> cases observedAt <;> simp [originFields, optionalField]

@[simp] theorem sortKeys_evidenceNodeToYojson (node : EvidenceNode) :
    (evidenceNodeToYojson node).sortKeys = evidenceNodeToYojson node := by
  apply Json.sortKeys_object
  obtain ⟨id, kind, status, subjectId, outcomeId, origin⟩ := node
  cases subjectId <;> cases outcomeId <;> simp [evidenceNodeFields, optionalField]

@[simp] theorem sortKeys_evidenceEdgeToYojson (edge : EvidenceEdge) :
    (evidenceEdgeToYojson edge).sortKeys = evidenceEdgeToYojson edge := by
  apply Json.sortKeys_object
  simp [evidenceEdgeFields]

@[simp] theorem sortKeys_conflictToYojson (conflict : Conflict) :
    (conflictToYojson conflict).sortKeys = conflictToYojson conflict := by
  apply Json.sortKeys_object
  simp [conflictFields]

@[simp] theorem sortKeys_proofGoalToYojson (goal : ProofGoal) :
    (proofGoalToYojson goal).sortKeys = proofGoalToYojson goal := by
  apply Json.sortKeys_object
  simp [proofGoalFields]

@[simp] theorem sortKeys_kernelRequestToYojson (request : KernelRequest) :
    (kernelRequestToYojson request).sortKeys = kernelRequestToYojson request := by
  apply Json.sortKeys_object
  simp [kernelRequestFields]

@[simp] theorem sortKeys_gapToYojson (gap : Gap) : (gapToYojson gap).sortKeys = gapToYojson gap := by
  apply Json.sortKeys_object
  obtain ⟨code, fromNodeId, toKind⟩ := gap
  cases fromNodeId <;> cases toKind <;> simp [gapFields, optionalField]

@[simp] theorem sortKeys_proofChainToYojson (chain : ProofChain) :
    (proofChainToYojson chain).sortKeys = proofChainToYojson chain := by
  apply Json.sortKeys_object
  simp [proofChainFields, strings]

@[simp] theorem sortKeys_proofResultToYojson (proof : ProofResult) :
    (proofResultToYojson proof).sortKeys = proofResultToYojson proof := by
  apply Json.sortKeys_object
  simp [proofResultFields]

@[simp] theorem sortKeys_protocolErrorToYojson (error : ProtocolError) :
    (protocolErrorToYojson error).sortKeys = protocolErrorToYojson error := by
  apply Json.sortKeys_object
  simp [protocolErrorFields]

@[simp] theorem sortKeys_kernelResponseToYojson (response : KernelResponse) :
    (kernelResponseToYojson response).sortKeys = kernelResponseToYojson response := by
  apply Json.sortKeys_object
  cases response <;> simp [kernelResponseFields]

/-- **Decoding inverts encoding, and accepts nothing else**: a tree that decodes is the encoding of
    its value up to the order of keys.  In particular no tree with the fields of a proof and of an
    error decodes, whatever its tag. -/
theorem decoders_exact :
    ((∀ request, kernelRequestOfYojson (kernelRequestToYojson request) = .ok request) ∧
      ∀ json request, kernelRequestOfYojson json = .ok request →
        json.sortKeys = kernelRequestToYojson request) ∧
    ((∀ response, kernelResponseOfYojson (kernelResponseToYojson response) = .ok response) ∧
      (∀ json response, kernelResponseOfYojson json = .ok response →
        json.sortKeys = kernelResponseToYojson response) ∧
      ∀ values response, "proof" ∈ values.map Prod.fst → "error" ∈ values.map Prod.fst →
        kernelResponseOfYojson (.assoc values) ≠ .ok response) := by
  refine ⟨⟨fun request => ?_, fun json request => (exact_kernelRequest json request).mp⟩,
    fun response => ?_, fun json response => (exact_kernelResponse json response).mp, ?_⟩
  · exact (exact_kernelRequest _ request).mpr (sortKeys_kernelRequestToYojson request)
  · exact (exact_kernelResponse _ response).mpr (sortKeys_kernelResponseToYojson response)
  · intro values response hproof herror hok
    have hsort := (exact_kernelResponse _ response).mp hok
    obtain ⟨-, hlookup⟩ :=
      (Json.sortKeys_assoc_eq_object_iff (kernelResponseFields_nodup response)).mp hsort
    -- one of the two keys is not written
    cases response with
    | proof =>
      have hnone : values.lookup "error" = none := by
        simpa [kernelResponseFields, List.lookup_cons] using hlookup "error"
      exact lookup_eq_none_iff.mp hnone herror
    | error =>
      have hnone : values.lookup "proof" = none := by
        simpa [kernelResponseFields, List.lookup_cons] using hlookup "proof"
      exact lookup_eq_none_iff.mp hnone hproof

end Rationale.Wire
