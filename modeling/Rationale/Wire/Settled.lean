import Rationale.Wire.Plain

namespace Rationale.Wire

open Rationale.Library Rationale.Kernel

/-!
# Encodings are spelled plainly

Whatever the order of its keys, the encoding of a value repeats no key and has no second spelling in
it: rewriting to the plain spelling leaves it as it is.
-/

/-- Trees that encode a value repeat no key, are spelled plainly, and are not null. -/
def Settled {α : Type} (plain : Json → Json) (encode : α → Json) : Prop :=
  ∀ json a, json.sortKeys = encode a → json.UniqueKeys ∧ plain json = json ∧ json ≠ .null

/-- The same of one field of an object. -/
def SettledField (parts : List (String × (Json → Json))) (field : String × Json) : Prop :=
  ∀ value : Json, value.sortKeys = field.2 →
    value.UniqueKeys ∧ (parts.lookup field.1).getD id value = value ∧ value ≠ .null

section Pieces

variable {α : Type} {plain : Json → Json} {encode : α → Json} {names options : List String}
  {parts : List (String × (Json → Json))} {values written : List (String × Json)} {name : String}

theorem settled_string : Settled id Json.string := by
  intro json a h
  rw [Json.sortKeys_eq_string_iff.mp h]
  exact ⟨trivial, rfl, nofun⟩

theorem settled_int : Settled id Json.int := by
  intro json a h
  rw [Json.sortKeys_eq_int_iff.mp h]
  exact ⟨trivial, rfl, nofun⟩

theorem settled_unit {buffered : Bool} {toString : α → String} :
    Settled (plainUnit buffered) fun a => .string (toString a) := by
  intro json a h
  rw [Json.sortKeys_eq_string_iff.mp h]
  exact ⟨trivial, rfl, nofun⟩

theorem settled_vec (h : Settled plain encode) :
    Settled (plainVec plain) fun l : List α => .list (l.map encode) := by
  intro json l hsort
  obtain ⟨items, rfl, hitems⟩ := Json.sortKeys_eq_list_iff.mp hsort
  have hitem : ∀ item ∈ items, item.UniqueKeys ∧ plain item = item := by
    intro item hmem
    have hencoded : item.sortKeys ∈ l.map encode := by
      rw [← hitems]
      exact List.mem_map_of_mem hmem
    obtain ⟨a, -, ha⟩ := List.mem_map.mp hencoded
    obtain ⟨hunique, hplain, -⟩ := h item a ha.symm
    exact ⟨hunique, hplain⟩
  have hmap : items.map plain = items := by
    conv_rhs => rw [← List.map_id items]
    exact List.map_congr_left (fun item hmem => (hitem item hmem).2)
  refine ⟨?_, by rw [plainVec, hmap], nofun⟩
  rw [Json.UniqueKeys, Json.uniqueKeysList_iff]
  exact fun item hmem => (hitem item hmem).1

theorem settledField (h : Settled plain encode) (hpart : (parts.lookup name).getD id = plain)
    (a : α) : SettledField parts (name, encode a) := by
  intro value hsort
  show value.UniqueKeys ∧ (parts.lookup name).getD id value = value ∧ value ≠ .null
  rw [hpart]
  exact h value a hsort

theorem settled_optionalField (h : Settled plain encode)
    (hpart : (parts.lookup name).getD id = plain) (a : Option α) :
    ∀ field ∈ optionalField name (a.map encode), SettledField parts field := by
  cases a with
  | none => simp [optionalField]
  | some a => simpa [optionalField] using settledField h hpart a

/-- The fields of an encoding are as plain as its parts. -/
theorem plainFields_eq_self (options : List String) (hwritten : (written.map Prod.fst).Nodup)
    (hparts : ∀ field ∈ written, SettledField parts field)
    (h : (Json.assoc values).sortKeys = .object written) :
    (Json.assoc values).UniqueKeys ∧ plainFields options parts values = values := by
  obtain ⟨hkeys, hlookup⟩ := (Json.sortKeys_assoc_eq_object_iff hwritten).mp h
  -- each field is written by the encoder, up to the order of keys below it
  have hfield : ∀ field ∈ values, field.2.UniqueKeys ∧
      (parts.lookup field.1).getD id field.2 = field.2 ∧ field.2 ≠ .null := by
    intro field hmem
    have hsorted : (field.1, field.2.sortKeys) ∈ written := by
      rw [← lookup_eq_some_iff hwritten, ← hlookup, (lookup_eq_some_iff hkeys).mpr hmem]
      rfl
    exact hparts _ hsorted _ rfl
  constructor
  · rw [Json.UniqueKeys, Json.uniqueKeysFields_iff]
    exact ⟨hkeys, fun field hmem => (hfield field hmem).1⟩
  · -- no field is null, so none is dropped
    have hkept : values.filter (fun field => (present options field.1 (some field.2)).isSome) =
        values := by
      rw [List.filter_eq_self]
      intro field hmem
      obtain ⟨-, -, hne⟩ := hfield field hmem
      obtain ⟨name, value⟩ := field
      cases value with
      | null => exact absurd rfl hne
      | _ => rfl
    unfold plainFields
    rw [hkept]
    conv_rhs => rw [← List.map_id values]
    refine List.map_congr_left (fun field hmem => ?_)
    rw [(hfield field hmem).2.1]
    rfl

theorem settled_struct {write : α → List (String × Json)}
    (hwritten : ∀ a, ((write a).map Prod.fst).Nodup)
    (hparts : ∀ a, ∀ field ∈ write a, SettledField parts field) :
    Settled (plainStruct names options parts) fun a => .object (write a) := by
  intro json a h
  obtain ⟨values, rfl⟩ := Json.sortKeys_eq_object h
  obtain ⟨hunique, hfields⟩ := plainFields_eq_self options (hwritten a) (hparts a) h
  refine ⟨hunique, ?_, nofun⟩
  rw [plainStruct, hfields]

end Pieces

/-! ### The messages and their parts -/

theorem settled_origin (buffered : Bool) : Settled (plainOrigin buffered) originToYojson := by
  apply settled_struct
  · rintro ⟨kind, locator, revision, observedAt⟩
    cases revision <;> cases observedAt <;> simp [originFields, optionalField]
  · intro origin
    rw [originFields, List.forall_mem_append, List.forall_mem_append]
    refine ⟨⟨?_, settled_optionalField settled_string rfl _⟩,
      settled_optionalField settled_string rfl _⟩
    simp only [List.forall_mem_cons]
    exact ⟨settledField settled_string rfl _, settledField settled_unit rfl _, by simp⟩

theorem settled_evidenceNode (buffered : Bool) :
    Settled (plainEvidenceNode buffered) evidenceNodeToYojson := by
  apply settled_struct
  · rintro ⟨id, kind, status, subjectId, outcomeId, origin⟩
    cases subjectId <;> cases outcomeId <;> simp [evidenceNodeFields, optionalField]
  · intro node
    rw [evidenceNodeFields, List.forall_mem_append, List.forall_mem_append]
    refine ⟨⟨?_, settled_optionalField settled_string rfl _⟩,
      settled_optionalField settled_string rfl _⟩
    simp only [List.forall_mem_cons]
    exact ⟨settledField settled_string rfl _, settledField settled_unit rfl _,
      settledField (settled_origin buffered) rfl _, settledField settled_unit rfl _, by simp⟩

theorem settled_evidenceEdge (buffered : Bool) :
    Settled (plainEvidenceEdge buffered) evidenceEdgeToYojson := by
  apply settled_struct
  · simp [evidenceEdgeFields]
  · intro edge
    simp only [evidenceEdgeFields, List.forall_mem_cons]
    exact ⟨settledField settled_string rfl _, settledField settled_unit rfl _,
      settledField (settled_origin buffered) rfl _, settledField settled_string rfl _,
      settledField settled_unit rfl _, settledField settled_string rfl _, by simp⟩

theorem settled_conflict : Settled plainConflict conflictToYojson := by
  apply settled_struct
  · simp [conflictFields]
  · intro conflict
    simp only [conflictFields, List.forall_mem_cons]
    exact ⟨settledField settled_string rfl _, settledField settled_string rfl _,
      settledField settled_string rfl _, by simp⟩

theorem settled_proofGoal (buffered : Bool) :
    Settled (plainProofGoal buffered) proofGoalToYojson := by
  apply settled_struct
  · simp [proofGoalFields]
  · intro goal
    simp only [proofGoalFields, List.forall_mem_cons]
    exact ⟨settledField (settled_vec settled_unit) rfl goal.anchorKinds,
      settledField settled_string rfl _, by simp⟩

theorem settled_kernelRequest : Settled plainKernelRequest kernelRequestToYojson := by
  apply settled_struct
  · simp [kernelRequestFields]
  · intro request
    simp only [kernelRequestFields, List.forall_mem_cons]
    exact ⟨settledField (settled_vec settled_conflict) rfl request.conflicts,
      settledField (settled_vec (settled_evidenceEdge false)) rfl request.edges,
      settledField (settled_proofGoal false) rfl _,
      settledField (settled_vec (settled_evidenceNode false)) rfl request.nodes,
      settledField settled_int rfl _, settledField settled_string rfl _,
      settledField settled_string rfl _, by simp⟩

theorem settled_gap (buffered : Bool) : Settled (plainGap buffered) gapToYojson := by
  apply settled_struct
  · rintro ⟨code, fromNodeId, toKind⟩
    cases fromNodeId <;> cases toKind <;> simp [gapFields, optionalField]
  · intro gap
    rw [gapFields, List.forall_mem_append, List.forall_mem_append]
    refine ⟨⟨?_, settled_optionalField settled_string rfl _⟩,
      settled_optionalField settled_unit rfl _⟩
    simp only [List.forall_mem_cons]
    exact ⟨settledField settled_unit rfl _, by simp⟩

theorem settled_proofChain : Settled plainProofChain proofChainToYojson := by
  have hstrings : Settled id strings := by
    intro json l h
    obtain ⟨hunique, -, hne⟩ := settled_vec settled_string json l h
    exact ⟨hunique, rfl, hne⟩
  apply settled_struct
  · simp [proofChainFields]
  · intro chain
    simp only [proofChainFields, List.forall_mem_cons]
    exact ⟨settledField hstrings rfl _, settledField hstrings rfl _, settledField hstrings rfl _,
      by simp⟩

theorem settled_proofResult (buffered : Bool) :
    Settled (plainProofResult buffered) proofResultToYojson := by
  apply settled_struct
  · simp [proofResultFields]
  · intro proof
    simp only [proofResultFields, List.forall_mem_cons]
    exact ⟨settledField (settled_vec settled_conflict) rfl proof.conflicts,
      settledField (settled_vec (settled_gap buffered)) rfl proof.gaps,
      settledField (settled_vec settled_proofChain) rfl proof.proofChains,
      settledField settled_unit rfl _, by simp⟩

theorem settled_protocolError (buffered : Bool) :
    Settled (plainProtocolError buffered) protocolErrorToYojson := by
  apply settled_struct
  · simp [protocolErrorFields]
  · intro error
    simp only [protocolErrorFields, List.forall_mem_cons]
    exact ⟨settledField settled_unit rfl _, settledField settled_string rfl _, by simp⟩

theorem settled_kernelResponse : Settled plainKernelResponse kernelResponseToYojson := by
  intro json response h
  obtain ⟨values, rfl⟩ := Json.sortKeys_eq_object h
  have hstatus := lookup_status h
  have hwritten := kernelResponseFields_nodup response
  cases response with
  | proof protocolVersion requestId snapshotId proof =>
    have hparts : ∀ field ∈ kernelResponseFields (.proof protocolVersion requestId snapshotId proof),
        SettledField [("proof", plainProofResult true)] field := by
      simp only [kernelResponseFields, List.forall_mem_cons]
      exact ⟨settledField (settled_proofResult true) rfl _, settledField settled_int rfl _,
        settledField settled_string rfl _, settledField settled_string rfl _,
        settledField settled_string rfl _, by simp⟩
    obtain ⟨hunique, hfields⟩ := plainFields_eq_self [] hwritten hparts h
    refine ⟨hunique, ?_, by simp⟩
    simp [plainKernelResponse, hstatus, kernelResponseStatus, responseVariant, hfields]
  | error protocolVersion requestId error =>
    have hparts : ∀ field ∈ kernelResponseFields (.error protocolVersion requestId error),
        SettledField [("error", plainProtocolError true)] field := by
      simp only [kernelResponseFields, List.forall_mem_cons]
      exact ⟨settledField (settled_protocolError true) rfl _, settledField settled_int rfl _,
        settledField settled_string rfl _, settledField settled_string rfl _, by simp⟩
    obtain ⟨hunique, hfields⟩ := plainFields_eq_self [] hwritten hparts h
    refine ⟨hunique, ?_, by simp⟩
    simp [plainKernelResponse, hstatus, kernelResponseStatus, responseVariant, hfields]

end Rationale.Wire
