import Rationale.Wire.Worker

namespace Rationale.Wire

open Rationale.Library Rationale.Kernel

/-!
# Two strict decoders

The host's decoders accept more spellings than the kernel's, and fewer protocol versions.

* `RequestsAgree`, `ResponsesAgree` — both decoders accept a tree, as the same value, or neither does;
* `decoders_agree_iff` — exactly when: a tree that is a document once it is spelled plainly must be
  spelled plainly already, unless its version keeps the host from reading it;
* `not_agree_nullRevision` — a null revision is read by the host only, a wide version by the kernel
  only.
-/

/-- One decoder accepts what the other accepts, with the same value. -/
def Agree {α : Type} (deserialize : Json → Option α) (ofYojson : Json → Except String α)
    (json : Json) : Prop :=
  ∀ a, deserialize json = some a ↔ ofYojson json = .ok a

def RequestsAgree (json : Json) : Prop := Agree deserializeKernelRequest kernelRequestOfYojson json

def ResponsesAgree (json : Json) : Prop :=
  Agree deserializeKernelResponse kernelResponseOfYojson json

/-- The tree is spelled plainly exactly if its version is a `u16`, when it is the document of a value
    up to the order of keys and to the spelling. -/
def SpelledForBoth {α : Type} (plain : Json → Json) (encode : α → Json) (version : α → Int)
    (json : Json) : Prop :=
  ∀ a, (plain json).sortKeys = encode a → (plain json = json ↔ InU16 (version a))

/-- A decoder that reads the plain spelling agrees with an exact one. -/
theorem agree_iff {α : Type} {deserialize : Json → Option α} {ofYojson : Json → Except String α}
    {plain : Json → Json} {encode : α → Json} {version : α → Int} {json : Json}
    (hreads : ∀ a, deserialize json = some a ↔ (plain json).sortKeys = encode a ∧ InU16 (version a))
    (hexact : Exact ofYojson encode) (hsettled : Settled plain encode) :
    Agree deserialize ofYojson json ↔ SpelledForBoth plain encode version json := by
  constructor
  · intro hagree a hplain
    have ha := hagree a
    rw [hreads, hexact] at ha
    constructor
    · intro hspelled
      rw [hspelled] at hplain
      exact (ha.mpr hplain).2
    · intro hversion
      exact (hsettled json a (ha.mp ⟨hplain, hversion⟩)).2.1
  · intro hspelled a
    rw [hreads, hexact]
    constructor
    · rintro ⟨hplain, hversion⟩
      rwa [(hspelled a hplain).mpr hversion] at hplain
    · intro hsort
      have hplain := (hsettled json a hsort).2.1
      have hdocument : (plain json).sortKeys = encode a := by rwa [hplain]
      exact ⟨hdocument, (hspelled a hdocument).mp hplain⟩

/-- **When the two decoders agree.** -/
theorem decoders_agree_iff {json : Json} (hunique : json.UniqueKeys) :
    (RequestsAgree json ↔
      SpelledForBoth plainKernelRequest kernelRequestToYojson KernelRequest.protocolVersion json) ∧
    (ResponsesAgree json ↔
      SpelledForBoth plainKernelResponse kernelResponseToYojson responseVersion json) := by
  constructor
  · exact agree_iff (fun _ => reads_kernelRequest hunique) exact_kernelRequest settled_kernelRequest
  · exact agree_iff (fun _ => reads_kernelResponse hunique) exact_kernelResponse
      settled_kernelResponse

/-! ### Documents that one side rejects -/

theorem not_agree_of_isSome {α : Type} {deserialize : Json → Option α}
    {ofYojson : Json → Except String α} {json : Json}
    (h : (deserialize json).isSome ≠ (ofYojson json).toOption.isSome) :
    ¬ Agree deserialize ofYojson json := by
  intro hagree
  apply h
  cases hok : ofYojson json with
  | ok a =>
    rw [(hagree a).mpr hok]
    rfl
  | error e =>
    cases hsome : deserialize json with
    | none => rfl
    | some a =>
      rw [(hagree a).mp hsome] at hok
      exact nomatch hok

/-- A request for one node, with the given version and revision fields. -/
def oneNodeRequest (protocolVersion : Int) (revision : List (String × Json)) : Json :=
  .assoc [("protocol_version", .int protocolVersion), ("request_id", .string "request-1"),
    ("snapshot_id", .string "snapshot-1"),
    ("goal", .assoc [("target_id", .string "target-1"),
      ("anchor_kinds", .list [.string "decision"])]),
    ("nodes", .list [.assoc [("id", .string "target-1"), ("kind", .string "code_target"),
      ("status", .string "current"),
      ("origin", .assoc ([("source_kind", .string "git"), ("locator", .string "src/main.rs")] ++
        revision))]]),
    ("edges", .list []), ("conflicts", .list [])]

theorem uniqueKeys_nullRevision : (oneNodeRequest 1 [("revision", .null)]).UniqueKeys := by
  simp [oneNodeRequest, Json.UniqueKeys, Json.uniqueKeysFields_iff, Json.uniqueKeysList_iff]

theorem not_requestsAgree_nullRevision :
    ¬ RequestsAgree (oneNodeRequest 1 [("revision", .null)]) :=
  not_agree_of_isSome (by decide)

/-- A null revision is not the plain spelling of a missing one. -/
theorem not_spelledForBoth_nullRevision :
    ¬ SpelledForBoth plainKernelRequest kernelRequestToYojson KernelRequest.protocolVersion
      (oneNodeRequest 1 [("revision", .null)]) :=
  fun h => not_requestsAgree_nullRevision ((decoders_agree_iff uniqueKeys_nullRevision).1.mpr h)

/-- With `"revision": null` only the host reads it; with version 70000, only the kernel. -/
theorem not_agree_nullRevision :
    ((oneNodeRequest 1 [("revision", .null)]).UniqueKeys ∧
      ¬ RequestsAgree (oneNodeRequest 1 [("revision", .null)])) ∧
    ((oneNodeRequest 70000 []).UniqueKeys ∧ ¬ RequestsAgree (oneNodeRequest 70000 [])) := by
  refine ⟨⟨uniqueKeys_nullRevision, not_requestsAgree_nullRevision⟩, ?_,
    not_agree_of_isSome (by decide)⟩
  simp [oneNodeRequest, Json.UniqueKeys, Json.uniqueKeysFields_iff, Json.uniqueKeysList_iff]

end Rationale.Wire
