import Rationale.Protocol
import Rationale.Library.Delimited

namespace Rationale

open Rationale.Library

/-!
# Edge identifiers

The document, GitHub and engine crates each derive an edge identifier from the edge's kind, its end
points and its origin's locator.  They hash the same text and differ only in how much of the digest
they keep.  `hash` stands for `blake3::hash(..).to_hex()`.
-/

/-- The `Debug` name of an edge kind. -/
def edgeKindName : EdgeKind → String
  | .introducedBy => "IntroducedBy"
  | .changedBy => "ChangedBy"
  | .includedInPr => "IncludedInPr"
  | .resolvesIssue => "ResolvesIssue"
  | .documents => "Documents"
  | .supersedes => "Supersedes"
  | .verifiedBy => "VerifiedBy"

/-- `format!("{kind:?}\0{source}\0{target}\0{}", origin.locator)`. -/
def edgeMaterial (kind : EdgeKind) (source target locator : String) : String :=
  edgeKindName kind ++ "\x00" ++ source ++ "\x00" ++ target ++ "\x00" ++ locator

theorem edgeKindName_injective {kind kind' : EdgeKind} (h : edgeKindName kind = edgeKindName kind') :
    kind = kind' := by
  cases kind <;> cases kind' <;> first | rfl | exact absurd h (by decide)

theorem edgeMaterial_toList (kind : EdgeKind) (source target locator : String) :
    (edgeMaterial kind source target locator).toList = (edgeKindName kind).toList ++ '\x00' ::
      (source.toList ++ '\x00' :: (target.toList ++ '\x00' :: locator.toList)) := by
  simp [edgeMaterial]

/-- The material tells its four parts apart when the ends are free of its separator. -/
theorem edgeMaterial_inj {kind kind' : EdgeKind}
    {source source' target target' locator locator' : String}
    (hsource : '\x00' ∉ source.toList) (hsource' : '\x00' ∉ source'.toList)
    (htarget : '\x00' ∉ target.toList) (htarget' : '\x00' ∉ target'.toList)
    (h : edgeMaterial kind source target locator = edgeMaterial kind' source' target' locator') :
    kind = kind' ∧ source = source' ∧ target = target' ∧ locator = locator' := by
  have hname : ∀ kind : EdgeKind, '\x00' ∉ (edgeKindName kind).toList := by
    intro kind
    cases kind <;> decide
  have hlist := congrArg String.toList h
  rw [edgeMaterial_toList, edgeMaterial_toList, append_delimiter_inj (hname kind) (hname kind'),
    append_delimiter_inj hsource hsource', append_delimiter_inj htarget htarget'] at hlist
  obtain ⟨hkind, hsource, htarget, hlocator⟩ := hlist
  exact ⟨edgeKindName_injective (String.toList_injective hkind), String.toList_injective hsource,
    String.toList_injective htarget, String.toList_injective hlocator⟩

/-- An edge whose identifier keeps the part `digest` of the hash. -/
def hashedEdge (hash : String → String) (digest : String → String) (kind : EdgeKind)
    (source target : String) (status : RecordStatus) (origin : Origin) : EvidenceEdge where
  id := "edge:" ++ digest (hash (edgeMaterial kind source target origin.locator))
  kind := kind
  sourceId := source
  targetId := target
  status := status
  origin := origin

end Rationale
