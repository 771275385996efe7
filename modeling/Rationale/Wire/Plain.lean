import Rationale.Wire.Serialized

namespace Rationale.Wire

open Rationale.Library Rationale.Kernel

/-!
# What the derived decoders accept

The derived decoders know more spellings of a value than the encoders use: an array for a struct, an
object with no payload for the name of a unit variant, null for an absent option.  Rewritten to the
plain spelling, a tree that they accept is the encoding of its value.

* `plainKernelRequest`, `plainKernelResponse` — the plain spelling of a document, by its type;
* `Reads` — a derived decoder accepts exactly the trees whose plain spelling is an encoding;
* `reads_kernelRequest`, `reads_kernelResponse` — so for the two messages, in the range of the
  protocol version.
-/

/-! ### The plain spelling -/

def plainUnit (buffered : Bool) : Json → Json
  | .assoc [(name, payload)] =>
    if unitPayload buffered payload then .string name else .assoc [(name, payload)]
  | json => json

def plainVec (plain : Json → Json) : Json → Json
  | .list items => .list (items.map plain)
  | json => json

/-- A null field, when nulls are allowed there, counts as absent. -/
def present (options : List String) (name : String) : Option Json → Option Json
  | some .null => if name ∈ options then none else some .null
  | value => value

def plainFields (options : List String) (parts : List (String × (Json → Json)))
    (values : List (String × Json)) : List (String × Json) :=
  (values.filter fun field => (present options field.1 (some field.2)).isSome).map fun field =>
    (field.1, (parts.lookup field.1).getD id field.2)

/-- The plain spelling of a struct, from its fields, those that are options, and the plain spelling
    of the fields that have others. -/
def plainStruct (names options : List String) (parts : List (String × (Json → Json))) : Json → Json
  | .assoc values => .assoc (plainFields options parts values)
  | .list items =>
    if items.length = names.length then .assoc (plainFields options parts (names.zip items))
    else .list items
  | json => json

def plainOrigin (buffered : Bool) : Json → Json :=
  plainStruct originNames ["revision", "observed_at"] [("source_kind", plainUnit buffered)]

def plainEvidenceNode (buffered : Bool) : Json → Json :=
  plainStruct evidenceNodeNames ["subject_id", "outcome_id"]
    [("kind", plainUnit buffered), ("status", plainUnit buffered), ("origin", plainOrigin buffered)]

def plainEvidenceEdge (buffered : Bool) : Json → Json :=
  plainStruct evidenceEdgeNames []
    [("kind", plainUnit buffered), ("status", plainUnit buffered), ("origin", plainOrigin buffered)]

def plainConflict : Json → Json := plainStruct conflictNames [] []

def plainProofGoal (buffered : Bool) : Json → Json :=
  plainStruct proofGoalNames [] [("anchor_kinds", plainVec (plainUnit buffered))]

def plainKernelRequest : Json → Json :=
  plainStruct kernelRequestNames []
    [("goal", plainProofGoal false), ("nodes", plainVec (plainEvidenceNode false)),
      ("edges", plainVec (plainEvidenceEdge false)), ("conflicts", plainVec plainConflict)]

def plainGap (buffered : Bool) : Json → Json :=
  plainStruct gapNames ["from_node_id", "to_kind"]
    [("code", plainUnit buffered), ("to_kind", plainUnit buffered)]

def plainProofChain : Json → Json := plainStruct proofChainNames [] []

def plainProofResult (buffered : Bool) : Json → Json :=
  plainStruct proofResultNames []
    [("verdict", plainUnit buffered), ("proof_chains", plainVec plainProofChain),
      ("gaps", plainVec (plainGap buffered)), ("conflicts", plainVec plainConflict)]

def plainProtocolError (buffered : Bool) : Json → Json :=
  plainStruct protocolErrorNames [] [("code", plainUnit buffered)]

/-- The fields of each variant of a response, and their plain spelling. -/
def responseVariant (name : String) : Option (List String × List (String × (Json → Json))) :=
  if name = "proof" then some (proofResponseNames, [("proof", plainProofResult true)])
  else if name = "error" then some (errorResponseNames, [("error", plainProtocolError true)])
  else none

/-- A tagged enum spelled as an array becomes an object with its tag. -/
def plainKernelResponse : Json → Json
  | .assoc values =>
    match values.lookup "status" with
    | some (.string name) =>
      match responseVariant name with
      | some (_, parts) => .assoc (plainFields [] parts values)
      | none => .assoc values
    | _ => .assoc values
  | .list (.string name :: items) =>
    match responseVariant name with
    | some (names, parts) =>
      if items.length = names.length then
        .assoc (("status", .string name) :: plainFields [] parts (names.zip items))
      else .list (.string name :: items)
    | none => .list (.string name :: items)
  | json => json

/-! ### Reading -/

/-- The decoder accepts the trees whose plain spelling encodes a value, and nothing else. -/
def Reads {α : Type} (decode : Json → Option α) (plain : Json → Json) (encode : α → Json) : Prop :=
  ∀ json a, json.UniqueKeys → (decode json = some a ↔ (plain json).sortKeys = encode a)

@[simp] theorem present_of_not_mem {options : List String} {name : String} (h : name ∉ options)
    (value : Option Json) : present options name value = value := by
  unfold present
  split
  · rw [if_neg h]
  · rfl

theorem present_eq_filter (options : List String) (name : String) (value : Option Json) :
    present options name value =
      value.filter fun json => (present options name (some json)).isSome := by
  cases value with
  | none => rfl
  | some json =>
    by_cases hname : name ∈ options
    · cases json with
      | null => simp [Option.filter, present, hname]
      | _ => rfl
    · simp [Option.filter, present_of_not_mem hname]

@[simp] theorem plainVec_id (json : Json) : plainVec id json = json := by
  cases json <;> simp [plainVec]

theorem nodup_of_unique {values : List (String × Json)} (h : (Json.assoc values).UniqueKeys) :
    (values.map Prod.fst).Nodup := by
  rw [Json.UniqueKeys] at h
  exact h.1

theorem unique_of_lookup {values : List (String × Json)} (h : (Json.assoc values).UniqueKeys)
    {name : String} {value : Json} (hlookup : values.lookup name = some value) :
    value.UniqueKeys := by
  rw [Json.UniqueKeys, Json.uniqueKeysFields_iff] at h
  exact h.2 _ (mem_of_lookup_eq_some hlookup)

section Pieces

variable {α : Type} {decode : Json → Option α} {plain : Json → Json} {encode : α → Json}
  {names options : List String} {parts : List (String × (Json → Json))}
  {values written : List (String × Json)} {name : String}

theorem reads_string : Reads deserializeString id Json.string := by
  intro json a _
  rw [id, Json.sortKeys_eq_string_iff]
  cases json <;> simp [deserializeString]

theorem reads_unitVariant {buffered : Bool} {variants : List (String × α)} {toString : α → String}
    (hkeys : (variants.map Prod.fst).Nodup)
    (hvariants : ∀ name a, (name, a) ∈ variants ↔ name = toString a) :
    Reads (unitVariant buffered variants) (plainUnit buffered) fun a => .string (toString a) := by
  have hlookup : ∀ name a, variants.lookup name = some a ↔ name = toString a := by
    intro name a
    rw [lookup_eq_some_iff hkeys, hvariants]
  intro json a _
  rw [Json.sortKeys_eq_string_iff]
  cases json with
  | string name => simp [unitVariant, plainUnit, hlookup]
  | assoc fields =>
    match fields with
    | [] => simp [unitVariant, plainUnit]
    | [(name, payload)] =>
      by_cases hpayload : unitPayload buffered payload = true
      · simp [unitVariant, plainUnit, hpayload, hlookup]
      · simp [unitVariant, plainUnit, hpayload]
    | _ :: _ :: _ => simp [unitVariant, plainUnit]
  | _ => simp [unitVariant, plainUnit]

theorem mapM_eq_some_iff (h : Reads decode plain encode) {items : List Json}
    (hunique : ∀ item ∈ items, item.UniqueKeys) {l : List α} :
    items.mapM decode = some l ↔ items.map (fun item => (plain item).sortKeys) = l.map encode := by
  induction items generalizing l with
  | nil => cases l <;> simp
  | cons item items ih =>
    obtain ⟨hitem, hitems⟩ := List.forall_mem_cons.mp hunique
    rw [List.mapM_cons]
    simp only [Option.bind_eq_bind, Option.bind_eq_some_iff, h item _ hitem, ih hitems]
    cases l with
    | nil => simp
    | cons b l =>
      constructor
      · rintro ⟨a, ha, l', hl', hcons⟩
        obtain ⟨rfl, rfl⟩ := List.cons.inj (Option.some.inj hcons)
        rw [List.map_cons, ha, hl', List.map_cons]
      · intro hcons
        obtain ⟨hb, hl⟩ := List.cons.inj hcons
        exact ⟨b, hb, l, hl, rfl⟩

theorem reads_vec (h : Reads decode plain encode) :
    Reads (deserializeVec decode) (plainVec plain) fun l => .list (l.map encode) := by
  intro json l hunique
  rw [Json.sortKeys_eq_list_iff]
  cases json with
  | list items =>
    rw [Json.UniqueKeys, Json.uniqueKeysList_iff] at hunique
    show items.mapM decode = some l ↔ _
    rw [mapM_eq_some_iff h hunique]
    simp [plainVec, Function.comp_def]
  | _ => simp [deserializeVec, plainVec]

theorem field_eq_some (h : Reads decode plain encode) (hvalues : (Json.assoc values).UniqueKeys)
    {a : α} : field name decode values = some a ↔
      (values.lookup name).map (fun value => (plain value).sortKeys) = some (encode a) := by
  cases hlookup : values.lookup name with
  | none => simp [field, hlookup]
  | some value => simp [field, hlookup, h value a (unique_of_lookup hvalues hlookup)]

theorem u16_eq_some {a : Int} : field name deserializeU16 values = some a ↔
    (values.lookup name).map Json.sortKeys = some (.int a) ∧ InU16 a := by
  cases hlookup : values.lookup name with
  | none => simp [field, hlookup]
  | some value =>
    rw [Option.map_some, Option.some.injEq, Json.sortKeys_eq_int_iff]
    cases value with
    | int value =>
      simp only [field, hlookup, deserializeU16, Option.bind_some, Json.int.injEq]
      grind
    | _ => simp [field, hlookup, deserializeU16]

theorem optionField_eq_some (options : List String) (h : Reads decode plain encode)
    (hvalues : (Json.assoc values).UniqueKeys) {a : Option α} (hname : name ∈ options) :
    optionField name decode values = some a ↔
      (present options name (values.lookup name)).map (fun value => (plain value).sortKeys) =
        a.map encode := by
  cases hlookup : values.lookup name with
  | none => cases a <;> simp [optionField, hlookup, present]
  | some value =>
    have hread : ∀ b, decode value = some b ↔ (plain value).sortKeys = encode b :=
      fun b => h value b (unique_of_lookup hvalues hlookup)
    by_cases hnull : value = .null
    · -- an explicit null reads as an absent field
      subst hnull
      cases a <;> simp [optionField, hlookup, present, hname]
    · have hpresent : present options name (some value) = some value := by
        cases value <;> simp_all [present]
      have hdecode : optionField name decode values = (decode value).map some := by
        cases value <;> simp_all [optionField]
      rw [hpresent, hdecode]
      cases a <;> simp [hread]

theorem lookup_plainFields (hvalues : (values.map Prod.fst).Nodup) :
    (plainFields options parts values).lookup name =
      (present options name (values.lookup name)).map ((parts.lookup name).getD id) := by
  unfold plainFields
  rw [lookup_map (fun name value => (parts.lookup name).getD id value), lookup_filter hvalues,
    ← present_eq_filter]

theorem nodup_plainFields (hvalues : (values.map Prod.fst).Nodup) :
    ((plainFields options parts values).map Prod.fst).Nodup := by
  have hkeys : (plainFields options parts values).map Prod.fst =
      (values.filter fun field => (present options field.1 (some field.2)).isSome).map
        Prod.fst := by
    simp [plainFields]
  rw [hkeys]
  exact hvalues.sublist (List.filter_sublist.map Prod.fst)

/-- Fields are spelled plainly as an object when they read so under every known key. -/
theorem plainFields_eq_object_iff (hvalues : (values.map Prod.fst).Nodup)
    (hknown : ∀ field ∈ values, field.1 ∈ names) (hwritten : (written.map Prod.fst).Nodup)
    (hnames : ∀ name ∈ written.map Prod.fst, name ∈ names) :
    (Json.assoc (plainFields options parts values)).sortKeys = .object written ↔
      ∀ name ∈ names, (present options name (values.lookup name)).map
        (fun value => ((parts.lookup name).getD id value).sortKeys) = written.lookup name := by
  have hlookup : ∀ name, ((plainFields options parts values).lookup name).map Json.sortKeys =
      (present options name (values.lookup name)).map
        fun value => ((parts.lookup name).getD id value).sortKeys := by
    intro name
    rw [lookup_plainFields hvalues, Option.map_map]
    rfl
  constructor
  · intro h name _
    rw [← hlookup]
    exact ((Json.sortKeys_assoc_eq_object_iff hwritten).mp h).2 name
  · intro h
    refine Json.sortKeys_assoc_eq_object_of_names names hwritten hnames
      (nodup_plainFields hvalues) ?_ (fun name hname => (hlookup name).trans (h name hname))
    intro name hname
    simp only [plainFields, List.map_map, List.mem_map, List.mem_filter] at hname
    obtain ⟨field, ⟨hfield, -⟩, rfl⟩ := hname
    exact hknown field hfield

/-- An unknown field is kept, so it shows. -/
theorem known_of_plainFields (hvalues : (values.map Prod.fst).Nodup)
    (hoptions : ∀ name ∈ options, name ∈ names) (hwritten : (written.map Prod.fst).Nodup)
    (hnames : ∀ name ∈ written.map Prod.fst, name ∈ names)
    (h : (Json.assoc (plainFields options parts values)).sortKeys = .object written) :
    ∀ field ∈ values, field.1 ∈ names := by
  intro field hfield
  by_contra hunknown
  have hlookup : (plainFields options parts values).lookup field.1 ≠ none := by
    rw [lookup_plainFields hvalues, (lookup_eq_some_iff hvalues).mpr hfield,
      present_of_not_mem (fun hmem => hunknown (hoptions _ hmem))]
    exact nofun
  apply hlookup
  rw [lookup_eq_none_iff]
  intro hmem
  exact hunknown (hnames _ ((Json.mem_keys_iff_of_sortKeys hwritten h).mp hmem))

/-- **Structs.** The decoder of a struct accepts the trees that, spelled plainly, are the object
    written for `a`, when it reads its fields so; `p` is what it checks besides. -/
theorem struct_eq_some (p : Prop) {read : List (String × Json) → Option α} {json : Json} {a : α}
    (hunique : json.UniqueKeys) (hdistinct : names.Nodup) (hoptions : ∀ name ∈ options, name ∈ names)
    (hwritten : (written.map Prod.fst).Nodup)
    (hnames : ∀ name ∈ written.map Prod.fst, name ∈ names)
    (hread : ∀ values, (Json.assoc values).UniqueKeys → (read values = some a ↔
      (∀ name ∈ names, (present options name (values.lookup name)).map
        (fun value => ((parts.lookup name).getD id value).sortKeys) = written.lookup name) ∧ p)) :
    ((structFields names json).bind read = some a ↔
      (plainStruct names options parts json).sortKeys = .object written ∧ p) := by
  -- the two spellings meet in the list of fields
  have hfields : ∀ values, (Json.assoc values).UniqueKeys → (∀ field ∈ values, field.1 ∈ names) →
      (read values = some a ↔
        (Json.assoc (plainFields options parts values)).sortKeys = .object written ∧ p) := by
    intro values hvalues hknown
    have hkeys := nodup_of_unique hvalues
    rw [hread values hvalues, plainFields_eq_object_iff hkeys hknown hwritten hnames]
  cases json with
  | assoc values =>
    have hkeys := nodup_of_unique hunique
    by_cases hknown : ∀ field ∈ values, field.1 ∈ names
    · rw [structFields, if_pos ⟨hkeys, hknown⟩, Option.bind_some]
      exact hfields values hunique hknown
    · -- `deny_unknown_fields`
      rw [structFields, if_neg (fun h => hknown h.2)]
      constructor
      · exact nofun
      · rintro ⟨hsort, -⟩
        exact absurd (known_of_plainFields hkeys hoptions hwritten hnames hsort) hknown
  | list items =>
    by_cases hlength : items.length = names.length
    · -- an array has the fields in the order of their declaration
      have hzip : (names.zip items).map Prod.fst = names := by
        rw [List.map_fst_zip]
        omega
      have hzipped : (Json.assoc (names.zip items)).UniqueKeys := by
        rw [Json.UniqueKeys, Json.uniqueKeysList_iff] at hunique
        rw [Json.UniqueKeys, Json.uniqueKeysFields_iff, hzip]
        exact ⟨hdistinct, fun field hfield => hunique _ (List.of_mem_zip hfield).2⟩
      rw [structFields, if_pos hlength, plainStruct, if_pos hlength]
      exact hfields _ hzipped (fun field hfield => (List.of_mem_zip hfield).1)
    · simp [structFields, plainStruct, hlength, Json.object]
  | _ => simp [structFields, plainStruct, Json.sortKeys, Json.object]

/-- The variant of a tagged enum reads the other fields of the object. -/
theorem tagged_eq_some (p : Prop) {read : List (String × Json) → Option α} {tag : String} {a : α}
    (hunique : (Json.assoc values).UniqueKeys) (hwritten : (written.map Prod.fst).Nodup)
    (hnames : ∀ name ∈ written.map Prod.fst, name ∈ tag :: names)
    (hread : ∀ rest, (Json.assoc rest).UniqueKeys →
      (∀ name, name ≠ tag → rest.lookup name = values.lookup name) → (read rest = some a ↔
      (∀ name ∈ tag :: names, (values.lookup name).map
        (fun value => ((parts.lookup name).getD id value).sortKeys) = written.lookup name) ∧ p)) :
    ((structFields names (.assoc (values.filter fun field => field.1 ≠ tag))).bind read = some a ↔
      (Json.assoc (plainFields [] parts values)).sortKeys = .object written ∧ p) := by
  have hkeys := nodup_of_unique hunique
  have hrestKeys : ((values.filter fun field => field.1 ≠ tag).map Prod.fst).Nodup :=
    hkeys.sublist (List.filter_sublist.map Prod.fst)
  have hrest : (Json.assoc (values.filter fun field => field.1 ≠ tag)).UniqueKeys := by
    rw [Json.UniqueKeys, Json.uniqueKeysFields_iff] at hunique ⊢
    exact ⟨hrestKeys, fun field hfield => hunique.2 field (List.mem_of_mem_filter hfield)⟩
  have hsame : ∀ name, name ≠ tag →
      (values.filter fun field => field.1 ≠ tag).lookup name = values.lookup name := by
    intro name hname
    rw [lookup_filter hkeys]
    cases values.lookup name <;> simp [hname]
  by_cases hknown : ∀ field ∈ values, field.1 ∈ tag :: names
  · -- only known fields: the variant reads what is left without the tag
    have hother : ∀ field ∈ values.filter fun field => field.1 ≠ tag, field.1 ∈ names := by
      intro field hfield
      obtain ⟨hmem, hne⟩ := List.mem_filter.mp hfield
      exact (List.mem_cons.mp (hknown field hmem)).resolve_left (of_decide_eq_true hne)
    rw [structFields, if_pos ⟨hrestKeys, hother⟩, Option.bind_some, hread _ hrest hsame,
      plainFields_eq_object_iff hkeys hknown hwritten hnames]
    simp
  · -- an unknown field is refused on the left, and shows on the right
    constructor
    · intro h
      obtain ⟨rest, hfields, -⟩ := Option.bind_eq_some_iff.mp h
      rw [structFields, Option.ite_none_right_eq_some] at hfields
      exfalso
      apply hknown
      intro field hfield
      by_cases htag : field.1 = tag
      · exact List.mem_cons.mpr (.inl htag)
      · exact List.mem_cons_of_mem _
          (hfields.1.2 field (List.mem_filter.mpr ⟨hfield, decide_eq_true htag⟩))
    · rintro ⟨hsort, -⟩
      exact absurd (known_of_plainFields hkeys (by simp) hwritten hnames hsort) hknown

end Pieces

/-! ### Closed enums -/

theorem reads_nodeKind (buffered : Bool) : Reads (deserializeNodeKind buffered)
    (plainUnit buffered) fun kind => .string (stringOfNodeKind kind) := by
  refine reads_unitVariant (by decide) (fun name kind => ?_)
  cases kind <;> simp [stringOfNodeKind]

theorem reads_edgeKind (buffered : Bool) : Reads (deserializeEdgeKind buffered)
    (plainUnit buffered) fun kind => .string (stringOfEdgeKind kind) := by
  refine reads_unitVariant (by decide) (fun name kind => ?_)
  cases kind <;> simp [stringOfEdgeKind]

theorem reads_recordStatus (buffered : Bool) : Reads (deserializeRecordStatus buffered)
    (plainUnit buffered) fun status => .string (stringOfRecordStatus status) := by
  refine reads_unitVariant (by decide) (fun name status => ?_)
  cases status <;> simp [stringOfRecordStatus]

theorem reads_sourceKind (buffered : Bool) : Reads (deserializeSourceKind buffered)
    (plainUnit buffered) fun kind => .string (stringOfSourceKind kind) := by
  refine reads_unitVariant (by decide) (fun name kind => ?_)
  cases kind <;> simp [stringOfSourceKind]

theorem reads_verdict (buffered : Bool) : Reads (deserializeVerdict buffered)
    (plainUnit buffered) fun verdict => .string (stringOfVerdict verdict) := by
  refine reads_unitVariant (by decide) (fun name verdict => ?_)
  cases verdict <;> simp [stringOfVerdict]

theorem reads_gapCode (buffered : Bool) : Reads (deserializeGapCode buffered)
    (plainUnit buffered) fun code => .string (stringOfGapCode code) := by
  refine reads_unitVariant (by decide) (fun name code => ?_)
  cases code <;> simp [stringOfGapCode]

theorem reads_errorCode (buffered : Bool) : Reads (deserializeErrorCode buffered)
    (plainUnit buffered) fun code => .string (stringOfErrorCode code) := by
  refine reads_unitVariant (by decide) (fun name code => ?_)
  cases code <;> simp [stringOfErrorCode]

/-! ### Structs -/

theorem reads_origin (buffered : Bool) :
    Reads (deserializeOrigin buffered) (plainOrigin buffered) originToYojson := by
  intro json origin hunique
  obtain ⟨kind, locator, revision, observedAt⟩ := origin
  rw [← and_true (Json.sortKeys _ = _)]
  refine struct_eq_some True hunique (by decide) (by decide) ?_ ?_ (fun values hvalues => ?_)
  · cases revision <;> cases observedAt <;> simp [originFields, optionalField]
  · cases revision <;> cases observedAt <;> simp [originFields, optionalField, originNames]
  · simp only [Option.bind_eq_bind, Option.bind_eq_some_iff,
      field_eq_some (reads_sourceKind buffered) hvalues, field_eq_some reads_string hvalues]
    simp [optionField_eq_some ["revision", "observed_at"] reads_string hvalues, originFields,
      originNames, List.lookup_cons, lookup_append, lookup_optionalField]

theorem reads_evidenceNode (buffered : Bool) :
    Reads (deserializeEvidenceNode buffered) (plainEvidenceNode buffered) evidenceNodeToYojson := by
  intro json node hunique
  obtain ⟨id, kind, status, subjectId, outcomeId, origin⟩ := node
  rw [← and_true (Json.sortKeys _ = _)]
  refine struct_eq_some True hunique (by decide) (by decide) ?_ ?_ (fun values hvalues => ?_)
  · cases subjectId <;> cases outcomeId <;> simp [evidenceNodeFields, optionalField]
  · cases subjectId <;> cases outcomeId <;>
      simp [evidenceNodeFields, optionalField, evidenceNodeNames]
  · simp only [Option.bind_eq_bind, Option.bind_eq_some_iff,
      field_eq_some (reads_nodeKind buffered) hvalues,
      field_eq_some (reads_recordStatus buffered) hvalues,
      field_eq_some (reads_origin buffered) hvalues, field_eq_some reads_string hvalues]
    simp [optionField_eq_some ["subject_id", "outcome_id"] reads_string hvalues,
      evidenceNodeFields, evidenceNodeNames, List.lookup_cons, lookup_append, lookup_optionalField]

theorem reads_evidenceEdge (buffered : Bool) :
    Reads (deserializeEvidenceEdge buffered) (plainEvidenceEdge buffered) evidenceEdgeToYojson := by
  intro json edge hunique
  obtain ⟨id, kind, sourceId, targetId, status, origin⟩ := edge
  rw [← and_true (Json.sortKeys _ = _)]
  refine struct_eq_some True hunique (by decide) (by decide) ?_ ?_ (fun values hvalues => ?_)
  · simp [evidenceEdgeFields]
  · simp [evidenceEdgeFields, evidenceEdgeNames]
  · simp only [Option.bind_eq_bind, Option.bind_eq_some_iff,
      field_eq_some (reads_edgeKind buffered) hvalues,
      field_eq_some (reads_recordStatus buffered) hvalues,
      field_eq_some (reads_origin buffered) hvalues, field_eq_some reads_string hvalues]
    simp [evidenceEdgeFields, evidenceEdgeNames, List.lookup_cons]

theorem reads_conflict : Reads deserializeConflict plainConflict conflictToYojson := by
  intro json conflict hunique
  obtain ⟨leftNodeId, rightNodeId, ruleId⟩ := conflict
  rw [← and_true (Json.sortKeys _ = _)]
  refine struct_eq_some True hunique (by decide) (by decide) ?_ ?_ (fun values hvalues => ?_)
  · simp [conflictFields]
  · simp [conflictFields, conflictNames]
  · simp only [Option.bind_eq_bind, Option.bind_eq_some_iff, field_eq_some reads_string hvalues]
    simp [conflictFields, conflictNames, List.lookup_cons]

theorem reads_proofGoal (buffered : Bool) :
    Reads (deserializeProofGoal buffered) (plainProofGoal buffered) proofGoalToYojson := by
  intro json goal hunique
  obtain ⟨targetId, anchorKinds⟩ := goal
  rw [← and_true (Json.sortKeys _ = _)]
  refine struct_eq_some True hunique (by decide) (by decide) ?_ ?_ (fun values hvalues => ?_)
  · simp [proofGoalFields]
  · simp [proofGoalFields, proofGoalNames]
  · simp only [Option.bind_eq_bind, Option.bind_eq_some_iff, field_eq_some reads_string hvalues,
      field_eq_some (reads_vec (reads_nodeKind buffered)) hvalues]
    simp [proofGoalFields, proofGoalNames, List.lookup_cons]

/-- **Requests.** -/
theorem reads_kernelRequest {json : Json} {request : KernelRequest} (hunique : json.UniqueKeys) :
    deserializeKernelRequest json = some request ↔
      (plainKernelRequest json).sortKeys = kernelRequestToYojson request ∧
        InU16 request.protocolVersion := by
  obtain ⟨protocolVersion, requestId, snapshotId, goal, nodes, edges, conflicts⟩ := request
  refine struct_eq_some _ hunique (by decide) (by decide) ?_ ?_ (fun values hvalues => ?_)
  · simp [kernelRequestFields]
  · simp [kernelRequestFields, kernelRequestNames]
  · simp only [Option.bind_eq_bind, Option.bind_eq_some_iff, u16_eq_some,
      field_eq_some reads_string hvalues, field_eq_some (reads_proofGoal false) hvalues,
      field_eq_some (reads_vec (reads_evidenceNode false)) hvalues,
      field_eq_some (reads_vec (reads_evidenceEdge false)) hvalues,
      field_eq_some (reads_vec reads_conflict) hvalues]
    simp [kernelRequestFields, kernelRequestNames, List.lookup_cons]
    tauto

theorem reads_gap (buffered : Bool) :
    Reads (deserializeGap buffered) (plainGap buffered) gapToYojson := by
  intro json gap hunique
  obtain ⟨code, fromNodeId, toKind⟩ := gap
  rw [← and_true (Json.sortKeys _ = _)]
  refine struct_eq_some True hunique (by decide) (by decide) ?_ ?_ (fun values hvalues => ?_)
  · cases fromNodeId <;> cases toKind <;> simp [gapFields, optionalField]
  · cases fromNodeId <;> cases toKind <;> simp [gapFields, optionalField, gapNames]
  · simp only [Option.bind_eq_bind, Option.bind_eq_some_iff,
      field_eq_some (reads_gapCode buffered) hvalues]
    simp [optionField_eq_some ["from_node_id", "to_kind"] reads_string hvalues,
      optionField_eq_some ["from_node_id", "to_kind"] (reads_nodeKind buffered) hvalues, gapFields,
      gapNames, List.lookup_cons, lookup_append, lookup_optionalField]

theorem reads_proofChain : Reads deserializeProofChain plainProofChain proofChainToYojson := by
  intro json chain hunique
  obtain ⟨nodeIds, edgeIds, ruleIds⟩ := chain
  rw [← and_true (Json.sortKeys _ = _)]
  refine struct_eq_some True hunique (by decide) (by decide) ?_ ?_ (fun values hvalues => ?_)
  · simp [proofChainFields]
  · simp [proofChainFields, proofChainNames]
  · simp only [Option.bind_eq_bind, Option.bind_eq_some_iff,
      field_eq_some (reads_vec reads_string) hvalues]
    simp [proofChainFields, proofChainNames, strings, List.lookup_cons]

theorem reads_proofResult (buffered : Bool) :
    Reads (deserializeProofResult buffered) (plainProofResult buffered) proofResultToYojson := by
  intro json proof hunique
  obtain ⟨verdict, proofChains, gaps, conflicts⟩ := proof
  rw [← and_true (Json.sortKeys _ = _)]
  refine struct_eq_some True hunique (by decide) (by decide) ?_ ?_ (fun values hvalues => ?_)
  · simp [proofResultFields]
  · simp [proofResultFields, proofResultNames]
  · simp only [Option.bind_eq_bind, Option.bind_eq_some_iff,
      field_eq_some (reads_verdict buffered) hvalues,
      field_eq_some (reads_vec reads_proofChain) hvalues,
      field_eq_some (reads_vec (reads_gap buffered)) hvalues,
      field_eq_some (reads_vec reads_conflict) hvalues]
    simp [proofResultFields, proofResultNames, List.lookup_cons]

theorem reads_protocolError (buffered : Bool) :
    Reads (deserializeProtocolError buffered) (plainProtocolError buffered)
      protocolErrorToYojson := by
  intro json error hunique
  obtain ⟨code, message⟩ := error
  rw [← and_true (Json.sortKeys _ = _)]
  refine struct_eq_some True hunique (by decide) (by decide) ?_ ?_ (fun values hvalues => ?_)
  · simp [protocolErrorFields]
  · simp [protocolErrorFields, protocolErrorNames]
  · simp only [Option.bind_eq_bind, Option.bind_eq_some_iff,
      field_eq_some (reads_errorCode buffered) hvalues, field_eq_some reads_string hvalues]
    simp [protocolErrorFields, protocolErrorNames, List.lookup_cons]

/-- The protocol version of a response. -/
def responseVersion : KernelResponse → Int
  | .proof protocolVersion _ _ _ => protocolVersion
  | .error protocolVersion _ _ => protocolVersion

/-- A tagged object whose plain spelling is a response has that response's tag. -/
theorem status_of_plainFields {values : List (String × Json)} {response : KernelResponse}
    {parts : List (String × (Json → Json))} (hvalues : (values.map Prod.fst).Nodup)
    (hparts : parts.lookup "status" = none)
    (h : (Json.assoc (plainFields [] parts values)).sortKeys = kernelResponseToYojson response) :
    values.lookup "status" = some (.string (kernelResponseStatus response)) := by
  have hstatus := lookup_status h
  rw [lookup_plainFields hvalues, present_of_not_mem (by simp), hparts] at hstatus
  simpa using hstatus

theorem reads_proofResponse {values : List (String × Json)} {response : KernelResponse}
    (hunique : (Json.assoc values).UniqueKeys)
    (hstatus : values.lookup "status" = some (.string "proof")) :
    deserializeProofResponse (.assoc (values.filter fun field => field.1 ≠ "status")) =
        some response ↔
      (Json.assoc (plainFields [] [("proof", plainProofResult true)] values)).sortKeys =
        kernelResponseToYojson response ∧ InU16 (responseVersion response) := by
  cases response with
  | proof protocolVersion requestId snapshotId proof =>
    refine tagged_eq_some _ hunique (kernelResponseFields_nodup _) ?_ (fun rest hrest hsame => ?_)
    · simp [kernelResponseFields, proofResponseNames]
    · simp only [Option.bind_eq_bind, Option.bind_eq_some_iff, u16_eq_some,
        field_eq_some reads_string hrest, field_eq_some (reads_proofResult true) hrest]
      simp [hsame, hstatus, kernelResponseFields, proofResponseNames, responseVersion, List.lookup_cons]
      tauto
  | error protocolVersion requestId error =>
    constructor
    · -- this variant never reads as an error
      simp only [deserializeProofResponse, Option.bind_eq_bind, Option.bind_eq_some_iff]
      simp
    · rintro ⟨hsort, -⟩
      rw [status_of_plainFields (nodup_of_unique hunique) rfl hsort] at hstatus
      simp [kernelResponseStatus] at hstatus

theorem reads_errorResponse {values : List (String × Json)} {response : KernelResponse}
    (hunique : (Json.assoc values).UniqueKeys)
    (hstatus : values.lookup "status" = some (.string "error")) :
    deserializeErrorResponse (.assoc (values.filter fun field => field.1 ≠ "status")) =
        some response ↔
      (Json.assoc (plainFields [] [("error", plainProtocolError true)] values)).sortKeys =
        kernelResponseToYojson response ∧ InU16 (responseVersion response) := by
  cases response with
  | error protocolVersion requestId error =>
    refine tagged_eq_some _ hunique (kernelResponseFields_nodup _) ?_ (fun rest hrest hsame => ?_)
    · simp [kernelResponseFields, errorResponseNames]
    · simp only [Option.bind_eq_bind, Option.bind_eq_some_iff, u16_eq_some,
        field_eq_some reads_string hrest, field_eq_some (reads_protocolError true) hrest]
      simp [hsame, hstatus, kernelResponseFields, errorResponseNames, responseVersion, List.lookup_cons]
      tauto
  | proof protocolVersion requestId snapshotId proof =>
    constructor
    · -- this variant never reads as a proof
      simp only [deserializeErrorResponse, Option.bind_eq_bind, Option.bind_eq_some_iff]
      simp
    · rintro ⟨hsort, -⟩
      rw [status_of_plainFields (nodup_of_unique hunique) rfl hsort] at hstatus
      simp [kernelResponseStatus] at hstatus

theorem filter_tag {values : List (String × Json)} (hvalues : (values.map Prod.fst).Nodup)
    (tag : String) : values.filter (fun field => field.1 = tag) =
      ((values.lookup tag).map fun value => (tag, value)).toList := by
  induction values with
  | nil => rfl
  | cons field values ih =>
    obtain ⟨hfield, hrest⟩ := List.nodup_cons.mp hvalues
    rw [List.filter_cons, List.lookup_cons, ih hrest]
    by_cases h : field.1 = tag
    · subst h
      simp [lookup_eq_none_iff.mpr hfield]
    · simp [h, beq_eq_false_iff_ne.mpr (Ne.symm h)]

theorem reads_taggedObject {values : List (String × Json)} {response : KernelResponse}
    (hunique : (Json.assoc values).UniqueKeys) :
    deserializeKernelResponse (.assoc values) = some response ↔
      (plainKernelResponse (.assoc values)).sortKeys = kernelResponseToYojson response ∧
        InU16 (responseVersion response) := by
  have hfilter := filter_tag (nodup_of_unique hunique) "status"
  by_cases hproof : values.lookup "status" = some (.string "proof")
  · rw [hproof] at hfilter
    simp only [deserializeKernelResponse, internallyTagged, hfilter, plainKernelResponse, hproof]
    exact reads_proofResponse hunique hproof
  by_cases herror : values.lookup "status" = some (.string "error")
  · rw [herror] at hfilter
    simp only [deserializeKernelResponse, internallyTagged, hfilter, plainKernelResponse, herror]
    exact reads_errorResponse hunique herror
  -- no tag, or another one: nothing is read, and nothing is rewritten
  have hnone : deserializeKernelResponse (.assoc values) = none ∧
      plainKernelResponse (.assoc values) = .assoc values := by
    cases hlookup : values.lookup "status" with
    | none =>
      rw [hlookup] at hfilter
      simp [deserializeKernelResponse, internallyTagged, plainKernelResponse, hfilter, hlookup]
    | some tag =>
      rw [hlookup] at hfilter hproof herror
      cases tag with
      | string name =>
        have hname : name ≠ "proof" ∧ name ≠ "error" := by simpa using And.intro hproof herror
        simp [deserializeKernelResponse, internallyTagged, plainKernelResponse, responseVariant,
          hfilter, hlookup, hname.1, hname.2]
      | _ =>
        simp [deserializeKernelResponse, internallyTagged, plainKernelResponse, hfilter, hlookup]
  rw [hnone.1, hnone.2]
  constructor
  · intro h
    cases h
  · rintro ⟨hsort, -⟩
    have hstatus := lookup_status hsort
    cases response with
    | proof => exact absurd hstatus hproof
    | error => exact absurd hstatus herror

/-- The object of an array that starts with a tag. -/
def taggedObject (name : String) (names : List String) (items : List Json) : Json :=
  .assoc (("status", .string name) :: names.zip items)

theorem structFields_zip {names : List String} {items : List Json} (hdistinct : names.Nodup)
    (hlength : items.length = names.length) :
    structFields names (.assoc (names.zip items)) = structFields names (.list items) := by
  have hkeys : ((names.zip items).map Prod.fst).Nodup := by
    rw [List.map_fst_zip (by omega)]
    exact hdistinct
  have hknown : ∀ field ∈ names.zip items, field.1 ∈ names :=
    fun field hfield => (List.of_mem_zip hfield).1
  rw [structFields, if_pos ⟨hkeys, hknown⟩, structFields, if_pos hlength]

theorem filter_zip {names : List String} {items : List Json} (h : "status" ∉ names) :
    (names.zip items).filter (fun field => field.1 = "status") = [] ∧
      (names.zip items).filter (fun field => !decide (field.1 = "status")) = names.zip items := by
  have hne : ∀ field ∈ names.zip items, field.1 ≠ "status" := by
    intro field hfield heq
    exact h (heq ▸ (List.of_mem_zip hfield).1)
  exact ⟨List.filter_eq_nil_iff.mpr (fun field hfield => by simpa using hne field hfield),
    List.filter_eq_self.mpr (fun field hfield => by simpa using hne field hfield)⟩

theorem unique_taggedObject {name : String} {names : List String} {items : List Json}
    (hunique : (Json.list (.string name :: items)).UniqueKeys) (hdistinct : names.Nodup)
    (h : "status" ∉ names) (hlength : items.length = names.length) :
    (taggedObject name names items).UniqueKeys := by
  rw [Json.UniqueKeys, Json.uniqueKeysList_iff] at hunique
  rw [taggedObject, Json.UniqueKeys, Json.uniqueKeysFields_iff, List.map_cons,
    List.map_fst_zip (by omega)]
  refine ⟨List.nodup_cons.mpr ⟨h, hdistinct⟩, fun field hfield => ?_⟩
  rcases List.mem_cons.mp hfield with rfl | hzip
  · exact hunique _ List.mem_cons_self
  · exact hunique _ (List.mem_cons_of_mem _ (List.of_mem_zip hzip).2)

/-- A tagged array reads as its object. -/
theorem reads_taggedArray {name : String} {items : List Json} {response : KernelResponse}
    (hunique : (Json.list (.string name :: items)).UniqueKeys) :
    deserializeKernelResponse (.list (.string name :: items)) = some response ↔
      (plainKernelResponse (.list (.string name :: items))).sortKeys =
        kernelResponseToYojson response ∧ InU16 (responseVersion response) := by
  by_cases hproof : name = "proof"
  · subst hproof
    have hstatus : "status" ∉ proofResponseNames := by decide
    by_cases hlength : items.length = proofResponseNames.length
    · -- the items in order are the fields of the variant, and both sides read that object
      have hdeserialize : deserializeKernelResponse (.list (.string "proof" :: items)) =
          deserializeKernelResponse (taggedObject "proof" proofResponseNames items) := by
        simp [deserializeKernelResponse, internallyTagged, taggedObject, filter_zip hstatus,
          deserializeProofResponse, structFields_zip (by decide) hlength]
      have hplain : plainKernelResponse (.list (.string "proof" :: items)) =
          plainKernelResponse (taggedObject "proof" proofResponseNames items) := by
        simp [plainKernelResponse, taggedObject, responseVariant, hlength, plainFields, present,
          List.lookup_cons]
      rw [hdeserialize, hplain]
      exact reads_taggedObject (unique_taggedObject hunique (by decide) hstatus hlength)
    · -- too few or too many items: nothing is read, and no array is the text of a response
      simp [deserializeKernelResponse, internallyTagged, deserializeProofResponse, structFields,
        plainKernelResponse, responseVariant, hlength, kernelResponseToYojson, Json.object]
  by_cases herror : name = "error"
  · subst herror
    have hstatus : "status" ∉ errorResponseNames := by decide
    by_cases hlength : items.length = errorResponseNames.length
    · have hdeserialize : deserializeKernelResponse (.list (.string "error" :: items)) =
          deserializeKernelResponse (taggedObject "error" errorResponseNames items) := by
        simp [deserializeKernelResponse, internallyTagged, taggedObject, filter_zip hstatus,
          deserializeErrorResponse, structFields_zip (by decide) hlength]
      have hplain : plainKernelResponse (.list (.string "error" :: items)) =
          plainKernelResponse (taggedObject "error" errorResponseNames items) := by
        simp [plainKernelResponse, taggedObject, responseVariant, hlength, plainFields, present,
          List.lookup_cons]
      rw [hdeserialize, hplain]
      exact reads_taggedObject (unique_taggedObject hunique (by decide) hstatus hlength)
    · simp [deserializeKernelResponse, internallyTagged, deserializeErrorResponse, structFields,
        plainKernelResponse, responseVariant, hlength, kernelResponseToYojson, Json.object]
  · -- another tag
    simp [deserializeKernelResponse, internallyTagged, plainKernelResponse, responseVariant,
      hproof, herror, kernelResponseToYojson, Json.object]

/-- **Responses.** -/
theorem reads_kernelResponse {json : Json} {response : KernelResponse} (hunique : json.UniqueKeys) :
    deserializeKernelResponse json = some response ↔
      (plainKernelResponse json).sortKeys = kernelResponseToYojson response ∧
        InU16 (responseVersion response) := by
  cases json with
  | assoc values => exact reads_taggedObject hunique
  | list items =>
    cases items with
    | nil =>
      simp [deserializeKernelResponse, internallyTagged, plainKernelResponse,
        kernelResponseToYojson, Json.object]
    | cons item items =>
      cases item with
      | string name => exact reads_taggedArray hunique
      | _ =>
        simp [deserializeKernelResponse, internallyTagged, plainKernelResponse,
          kernelResponseToYojson, Json.object]
  | _ =>
    simp [deserializeKernelResponse, internallyTagged, plainKernelResponse, Json.sortKeys,
      kernelResponseToYojson, Json.object]

end Rationale.Wire
