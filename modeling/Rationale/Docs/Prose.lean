import Rationale.Docs.Containment
import Rationale.Docs.Identifiers

namespace Rationale.Docs

open Std Rationale.Library Rationale.Text

/-!
# What the prose of a document can change

Two runs of `normalize_markdown` with one front matter, without and with a body.

* `Written`, `normalizeMarkdown_eq_ok` — the exact outcome of a document;
* `mem_sortEdges`, `eq_of_id_markdownEdges` — the relationships of a document have identifiers of
  their own;
* `ProseContained` — the body adds relationships to the identifiers in it, and nothing else;
* `proseContained_iff` — this holds exactly when the identifiers of the body are valid ones.
-/

/-! ### The outcome of a document -/

section Outcome

variable (hash : String → String) (parsers : Parsers) (path body : String) (patterns : IdPatterns)
  (metadata : RationaleMetadata)

/-- The origin of a Markdown record. -/
def markdownOrigin : Origin := ⟨.document, path ++ "#rationale", none, none⟩

/-- What a record documents: the identifiers of its front matter and of its body. -/
def documentTargets : List String :=
  (sortUniq compare (metadata.documents ++ markdownIdentifiers parsers body patterns)).filter
    (· ≠ metadata.id)

/-- One item for each relationship: the documented targets, then those that the front matter lists. -/
def forRelationships {α : Type} (targets : List String) (f : EdgeKind → String → α) : List α :=
  targets.map (f .documents) ++ metadata.supersedes.map (f .supersedes) ++
    metadata.verifiedBy.map (f .verifiedBy)

/-- The relationships of a record before they are sorted. -/
def markdownEdges (status : RecordStatus) (targets : List String) : List EvidenceEdge :=
  forRelationships metadata targets
    (fun kind target => edge hash kind metadata.id target status (markdownOrigin path))

/-- The texts that the identifiers of a record's relationships are hashed from. -/
def relationshipTexts (targets : List String) : List String :=
  forRelationships metadata targets
    (fun kind target => edgeMaterial kind metadata.id target (path ++ "#rationale"))

/-- What is written for a front matter with these targets. -/
structure Written (targets : List String) (parsed : ParsedInput) : Prop where
  id_valid : validateId metadata.id = .ok ()
  targets_valid : ∀ target ∈ targets ++ metadata.supersedes ++ metadata.verifiedBy,
    validateId target = .ok ()
  status_eq : parseStatus metadata.status = .ok parsed.node.status
  node_eq : ∃ kind, markdownKind patterns metadata = .ok kind ∧
    parsed.node = ⟨metadata.id, kind, parsed.node.status, metadata.subjectId, metadata.outcomeId,
      markdownOrigin path⟩
  edges_eq : parsed.edges = sortEdges (markdownEdges hash path metadata parsed.node.status targets)
  conflicts_eq : ∃ conflicts, metadata.conflicts.mapM (normalizeConflict metadata.id) =
    .ok conflicts ∧ parsed.conflicts = sortBy compareConflicts conflicts

variable {hash parsers path body patterns metadata} {parsed : ParsedInput}

/-- **The outcome of a document**, read off the checks that it passes. -/
theorem normalizeMarkdown_eq_ok :
    normalizeMarkdown hash parsers path body patterns metadata = .ok parsed ↔
      Written hash path patterns metadata (documentTargets parsers body patterns metadata) parsed := by
  unfold normalizeMarkdown
  simp only [bind_eq_ok, edgesTo_eq_ok, withCode_eq_ok]
  constructor
  · rintro ⟨_, hid, kind, hkind, status, hstatus, documents, ⟨rfl, hdocuments⟩, supersedes,
      ⟨rfl, hsupersedes⟩, verifiedBy, ⟨rfl, hverifiedBy⟩, conflicts, hconflicts, h⟩
    obtain rfl := Except.ok.inj h
    refine ⟨hid, fun target htarget => ?_, hstatus, ⟨kind, hkind, rfl⟩, rfl,
      ⟨conflicts, hconflicts, rfl⟩⟩
    rcases List.mem_append.mp htarget with htarget | htarget
    · rcases List.mem_append.mp htarget with htarget | htarget
      · exact hdocuments target htarget
      · exact hsupersedes target htarget
    · exact hverifiedBy target htarget
  · intro h
    obtain ⟨kind, hkind, hnode⟩ := h.node_eq
    obtain ⟨conflicts, hconflicts, hsorted⟩ := h.conflicts_eq
    have hvalid := h.targets_valid
    simp only [List.mem_append] at hvalid
    refine ⟨(), h.id_valid, kind, hkind, _, h.status_eq,
      _, ⟨rfl, fun target htarget => hvalid target (Or.inl (Or.inl htarget))⟩,
      _, ⟨rfl, fun target htarget => hvalid target (Or.inl (Or.inr htarget))⟩,
      _, ⟨rfl, fun target htarget => hvalid target (Or.inr htarget)⟩, conflicts, hconflicts, ?_⟩
    have hedges := h.edges_eq
    obtain ⟨node, edges, found⟩ := parsed
    dsimp only at hnode hedges hsorted
    show Except.ok _ = Except.ok _
    rw [Except.ok.injEq, ParsedInput.mk.injEq, hedges, hsorted]
    exact ⟨hnode.symm, rfl, rfl⟩

theorem mem_documentTargets {target : String} :
    target ∈ documentTargets parsers body patterns metadata ↔
      (target ∈ metadata.documents ∨ target ∈ markdownIdentifiers parsers body patterns) ∧
        target ≠ metadata.id := by
  simp [documentTargets]

end Outcome

/-! ### Identifiers of relationships -/

section Separate

variable (hash : String → String)

/-- The digits kept of the hash tell the texts apart. -/
def HashSeparates (texts : List String) : Prop :=
  ∀ text ∈ texts, ∀ text' ∈ texts,
    (hash text).toList.take 24 = (hash text').toList.take 24 → text = text'

instance (texts : List String) : Decidable (HashSeparates hash texts) :=
  inferInstanceAs (Decidable (∀ text ∈ texts, ∀ text' ∈ texts, _ → _))

variable {hash} {path : String} {metadata : RationaleMetadata} {status : RecordStatus} {targets : List String} {e e' : EvidenceEdge}

/-- The record has a relationship of the kind to the target. -/
inductive Relates (metadata : RationaleMetadata) (targets : List String) :
    EdgeKind → String → Prop where
  | documents {target : String} (h : target ∈ targets) : Relates metadata targets .documents target
  | supersedes {target : String} (h : target ∈ metadata.supersedes) :
      Relates metadata targets .supersedes target
  | verifiedBy {target : String} (h : target ∈ metadata.verifiedBy) :
      Relates metadata targets .verifiedBy target

theorem mem_forRelationships {α : Type} {f : EdgeKind → String → α} {a : α} :
    a ∈ forRelationships metadata targets f ↔
      ∃ kind target, Relates metadata targets kind target ∧ a = f kind target := by
  simp only [forRelationships, List.mem_append, List.mem_map]
  constructor
  · rintro ((⟨target, htarget, rfl⟩ | ⟨target, htarget, rfl⟩) | ⟨target, htarget, rfl⟩)
    · exact ⟨_, target, .documents htarget, rfl⟩
    · exact ⟨_, target, .supersedes htarget, rfl⟩
    · exact ⟨_, target, .verifiedBy htarget, rfl⟩
  · rintro ⟨kind, target, hkind, rfl⟩
    cases hkind with
    | documents h => exact Or.inl (Or.inl ⟨target, h, rfl⟩)
    | supersedes h => exact Or.inl (Or.inr ⟨target, h, rfl⟩)
    | verifiedBy h => exact Or.inr ⟨target, h, rfl⟩

theorem Relates.mono {targets' : List String} (hsub : targets ⊆ targets') {kind : EdgeKind}
    {target : String} (h : Relates metadata targets kind target) :
    Relates metadata targets' kind target := by
  cases h with
  | documents h => exact .documents (hsub h)
  | supersedes h => exact .supersedes h
  | verifiedBy h => exact .verifiedBy h

theorem Relates.mem_targets {kind : EdgeKind} {target : String}
    (h : Relates metadata targets kind target) :
    target ∈ targets ++ metadata.supersedes ++ metadata.verifiedBy := by
  cases h with
  | documents h => simp [h]
  | supersedes h => simp [h]
  | verifiedBy h => simp [h]

/-- The relationships of a record have their identifiers for themselves. -/
theorem eq_of_id_markdownEdges (hid : validateId metadata.id = .ok ())
    (hvalid : ∀ target ∈ targets ++ metadata.supersedes ++ metadata.verifiedBy,
      validateId target = .ok ())
    (hhash : HashSeparates hash (relationshipTexts path metadata targets))
    (he : e ∈ markdownEdges hash path metadata status targets)
    (he' : e' ∈ markdownEdges hash path metadata status targets) (heq : e.id = e'.id) : e = e' := by
  obtain ⟨kind, target, hkind, rfl⟩ := mem_forRelationships.mp he
  obtain ⟨kind', target', hkind', rfl⟩ := mem_forRelationships.mp he'
  have hdigits : (hash (edgeMaterial kind metadata.id target (path ++ "#rationale"))).toList.take 24 =
      (hash (edgeMaterial kind' metadata.id target' (path ++ "#rationale"))).toList.take 24 := by
    have hlist := congrArg String.toList heq
    simp only [edge, hashedEdge, String.toList_append, String.toList_ofList] at hlist
    exact List.append_cancel_left hlist
  have htext := hhash _ (mem_forRelationships.mpr ⟨kind, target, hkind, rfl⟩) _
    (mem_forRelationships.mpr ⟨kind', target', hkind', rfl⟩) hdigits
  have hnul := notMem_of_validateId hid
  obtain ⟨rfl, -, rfl, -⟩ := edgeMaterial_inj hnul hnul
    (notMem_of_validateId (hvalid target hkind.mem_targets))
    (notMem_of_validateId (hvalid target' hkind'.mem_targets)) htext
  rfl

theorem mem_sortEdges {edges : List EvidenceEdge}
    (hsame : ∀ e ∈ edges, ∀ e' ∈ edges, e.id = e'.id → e = e') :
    e ∈ sortEdges edges ↔ e ∈ edges := by
  rw [sortEdges, mem_dedupBy_of_eq, mem_sortBy]
  intro x hx y hy heq
  exact hsame x (mem_sortBy.mp hx) y (mem_sortBy.mp hy) (eq_of_beq heq)

theorem sortEdges_pairwise (edges : List EvidenceEdge) :
    (sortEdges edges).Pairwise (fun e e' => compare e.id e'.id = .lt) :=
  @dedupBy_pairwise _ _ _ EvidenceEdge.id compare _ _ _
    (@sortBy_pairwise _ (compareOn EvidenceEdge.id) _ edges)

/-- What the relationships of a written document are. -/
theorem Written.mem_edges {patterns : IdPatterns} {parsed : ParsedInput}
    (h : Written hash path patterns metadata targets parsed)
    (hhash : HashSeparates hash (relationshipTexts path metadata targets)) :
    e ∈ parsed.edges ↔ ∃ kind target, Relates metadata targets kind target ∧
      e = edge hash kind metadata.id target parsed.node.status (markdownOrigin path) := by
  rw [h.edges_eq, mem_sortEdges, markdownEdges, mem_forRelationships]
  exact fun e he e' he' => eq_of_id_markdownEdges h.id_valid h.targets_valid hhash he he'

theorem Written.edges_pairwise {patterns : IdPatterns} {parsed : ParsedInput}
    (h : Written hash path patterns metadata targets parsed) :
    parsed.edges.Pairwise (fun e e' => compare e.id e'.id = .lt) := by
  rw [h.edges_eq]
  exact sortEdges_pairwise _

theorem Written.id_eq {patterns : IdPatterns} {parsed : ParsedInput}
    (h : Written hash path patterns metadata targets parsed) : parsed.node.id = metadata.id := by
  obtain ⟨kind, -, hnode⟩ := h.node_eq
  rw [hnode]

/-- Fewer targets have fewer texts to tell apart. -/
theorem HashSeparates.mono {targets' : List String} (hsub : targets ⊆ targets')
    (h : HashSeparates hash (relationshipTexts path metadata targets')) :
    HashSeparates hash (relationshipTexts path metadata targets) := by
  have htexts : ∀ text ∈ relationshipTexts path metadata targets,
      text ∈ relationshipTexts path metadata targets' := by
    intro text htext
    obtain ⟨kind, target, hkind, rfl⟩ := mem_forRelationships.mp htext
    exact mem_forRelationships.mpr ⟨kind, target, hkind.mono hsub, rfl⟩
  exact fun text htext text' htext' => h text (htexts text htext) text' (htexts text' htext')

end Separate

/-! ### Two runs -/

/-- Against the record `plain` of the same front matter with another body, `parsed` has further
    relationships to identifiers in its body, and nothing else. -/
structure ProseContained (parsers : Parsers) (body : String) (patterns : IdPatterns)
    (plain parsed : ParsedInput) : Prop where
  node : parsed.node = plain.node
  conflicts : parsed.conflicts = plain.conflicts
  stated : parsed.edges.filter (·.kind ≠ .documents) = plain.edges.filter (·.kind ≠ .documents)
  kept : ∀ e ∈ plain.edges, e ∈ parsed.edges
  added : ∀ e ∈ parsed.edges, e ∉ plain.edges → e.kind = .documents ∧ e.sourceId = parsed.node.id ∧
    ∃ text ∈ parsers.markdown body, ∃ before after,
      Occurs patterns text.toList before e.targetId.toList after

section TwoRuns

variable {hash : String → String} {parsers : Parsers} {path body : String} {patterns : IdPatterns}
  {metadata : RationaleMetadata} {plain : ParsedInput}

/-- The identifiers of a body occur in its texts, code spans or link targets. -/
theorem occurs_of_mem_markdownIdentifiers {id : String}
    (h : id ∈ markdownIdentifiers parsers body patterns) : ∃ text ∈ parsers.markdown body,
      ∃ before after, Occurs patterns text.toList before id.toList after := by
  unfold markdownIdentifiers at h
  rw [mem_sortUniq, List.mem_flatMap] at h
  obtain ⟨text, htext, h⟩ := h
  obtain ⟨before, after, hid⟩ := mem_findIdentifiers.mp h
  exact ⟨text, htext, before, after, hid.toOccurs⟩

/-- **Prose is contained** exactly when the identifiers of the body, the record's own apart, are
    valid ones. -/
theorem proseContained_iff (hempty : parsers.markdown "" = [])
    (hplain : normalizeMarkdown hash parsers path "" patterns metadata = .ok plain)
    (hhash : HashSeparates hash
      (relationshipTexts path metadata (documentTargets parsers body patterns metadata))) :
    (∃ parsed, normalizeMarkdown hash parsers path body patterns metadata = .ok parsed ∧
        ProseContained parsers body patterns plain parsed) ↔
      ∀ id ∈ markdownIdentifiers parsers body patterns, id ≠ metadata.id →
        validateId id = .ok () := by
  rw [normalizeMarkdown_eq_ok] at hplain
  simp only [normalizeMarkdown_eq_ok]
  have hbody : ∀ {target}, target ∈ documentTargets parsers body patterns metadata ↔
      target ∈ documentTargets parsers "" patterns metadata ∨
        target ∈ markdownIdentifiers parsers body patterns ∧ target ≠ metadata.id := by
    intro target
    have hnone : target ∉ markdownIdentifiers parsers "" patterns := by
      simp [markdownIdentifiers, hempty]
    rw [mem_documentTargets, mem_documentTargets]
    tauto
  constructor
  · rintro ⟨parsed, h, -⟩ id hid hne
    exact h.targets_valid id (by simp [hbody.mpr (Or.inr ⟨hid, hne⟩)])
  intro hvalid
  have htargets : ∀ target ∈ documentTargets parsers body patterns metadata ++
      metadata.supersedes ++ metadata.verifiedBy, validateId target = .ok () := by
    intro target htarget
    simp only [List.mem_append, hbody] at htarget
    have hold := hplain.targets_valid target
    simp only [List.mem_append] at hold
    rcases htarget with ((htarget | ⟨htarget, hne⟩) | htarget) | htarget
    · exact hold (Or.inl (Or.inl htarget))
    · exact hvalid target htarget hne
    · exact hold (Or.inl (Or.inr htarget))
    · exact hold (Or.inr htarget)
  -- the same document, with the targets of the body
  have hwritten : Written hash path patterns metadata (documentTargets parsers body patterns metadata)
      ⟨plain.node, sortEdges (markdownEdges hash path metadata plain.node.status
        (documentTargets parsers body patterns metadata)), plain.conflicts⟩ :=
    ⟨hplain.id_valid, htargets, hplain.status_eq, hplain.node_eq, rfl, hplain.conflicts_eq⟩
  have hsub : documentTargets parsers "" patterns metadata ⊆
      documentTargets parsers body patterns metadata := fun target h => hbody.mpr (Or.inl h)
  have hmem := fun e => hwritten.mem_edges (e := e) hhash
  have hmem' := fun e => hplain.mem_edges (e := e) (hhash.mono hsub)
  refine ⟨_, hwritten, rfl, rfl, ?_, fun e he => ?_, fun e he hnew => ?_⟩
  · refine eq_of_pairwise_key_lt (hwritten.edges_pairwise.filter _) (hplain.edges_pairwise.filter _)
      (fun e => ?_)
    simp only [List.mem_filter, decide_eq_true_eq, hmem, hmem']
    refine and_congr_left (fun hkind => exists_congr fun kind => exists_congr fun target =>
      and_congr_left fun heq => ?_)
    -- a relationship of another kind does not come from the body
    rw [heq] at hkind
    constructor
    · intro h
      cases h with
      | documents h => exact absurd rfl hkind
      | supersedes h => exact .supersedes h
      | verifiedBy h => exact .verifiedBy h
    · intro h
      cases h with
      | documents h => exact absurd rfl hkind
      | supersedes h => exact .supersedes h
      | verifiedBy h => exact .verifiedBy h
  · obtain ⟨kind, target, hkind, heq⟩ := (hmem' e).mp he
    exact (hmem e).mpr ⟨kind, target, hkind.mono hsub, heq⟩
  · obtain ⟨kind, target, hkind, rfl⟩ := (hmem e).mp he
    cases hkind with
    | documents h =>
      rcases hbody.mp h with hold | ⟨hid, -⟩
      · exact absurd ((hmem' _).mpr ⟨_, target, .documents hold, rfl⟩) hnew
      · exact ⟨rfl, hwritten.id_eq.symm, occurs_of_mem_markdownIdentifiers hid⟩
    | supersedes h => exact absurd ((hmem' _).mpr ⟨_, target, .supersedes h, rfl⟩) hnew
    | verifiedBy h => exact absurd ((hmem' _).mpr ⟨_, target, .verifiedBy h, rfl⟩) hnew

end TwoRuns

/-! ### One front matter, two bodies -/

section Sample

/-- The digests of the three relationships of the sample. -/
def proseHash (text : String) : String :=
  if text = "Documents\x00ADR-1\x00ADR-2\x00a.md#rationale" then
    "76553d991f4e074c01545259a2480143364623c003fa516e3789c4bf3a4bc4f6"
  else if text = "Supersedes\x00ADR-1\x00ADR-0\x00a.md#rationale" then
    "4b7adeb30b4b92af89718b155a2c8eadce59d2243de45f1669822e4be3133dc0"
  else if text = "VerifiedBy\x00ADR-1\x00VERIFY-1\x00a.md#rationale" then
    "fe7e137b126a1ea5f743873521b8d08644568bddfc218ccb8fd5d2a4450ee505"
  else ""

/-- A body of one paragraph is one text. -/
def proseParsers : Parsers where
  rationale _ _ := .malformed
  verification _ _ := none
  markdown body := if body = "" then [] else [body]

def proseMetadata : RationaleMetadata where
  id := "ADR-1"
  kind := none
  subjectId := none
  outcomeId := none
  status := "accepted"
  documents := []
  supersedes := ["ADR-0"]
  verifiedBy := ["VERIFY-1"]
  conflicts := []

def prosePlain : ParsedInput where
  node := ⟨"ADR-1", .decision, .current, none, none, markdownOrigin "a.md"⟩
  edges := sortEdges (markdownEdges proseHash "a.md" proseMetadata .current [])
  conflicts := []

theorem normalizeMarkdown_prosePlain :
    normalizeMarkdown proseHash proseParsers "a.md" "" .default proseMetadata = .ok prosePlain := by
  refine normalizeMarkdown_eq_ok.mpr ⟨by decide, by decide, by decide,
    ⟨.decision, by decide, by decide⟩, ?_, ⟨[], rfl, rfl⟩⟩
  have hnone : documentTargets proseParsers "" .default proseMetadata = [] := by decide
  rw [hnone]
  rfl

set_option maxRecDepth 2000 in
theorem proseContained_sample :
    ∃ parsed, normalizeMarkdown proseHash proseParsers "a.md" "See ADR-2." .default proseMetadata =
        .ok parsed ∧
      ProseContained proseParsers "See ADR-2." .default prosePlain parsed :=
  (proseContained_iff rfl normalizeMarkdown_prosePlain (by decide)).mpr (by decide)

/-- An identifier of 129 bytes. -/
def longIdentifier : String := String.ofList ("ADR-".toList ++ List.replicate 125 '1')

set_option maxRecDepth 4000 in
/-- A body that names a long identifier takes the whole record away. -/
theorem not_proseContained_long :
    normalizeMarkdown proseHash proseParsers "a.md" "" .default proseMetadata = .ok prosePlain ∧
    ¬ ∃ parsed, normalizeMarkdown proseHash proseParsers "a.md" longIdentifier .default
        proseMetadata = .ok parsed ∧
      ProseContained proseParsers longIdentifier .default prosePlain parsed := by
  refine ⟨normalizeMarkdown_prosePlain, ?_⟩
  rintro ⟨parsed, h, -⟩
  have hinvalid : validateId longIdentifier ≠ .ok () := by decide
  have hne : longIdentifier ≠ "ADR-1" := by decide
  have hmarkdown : proseParsers.markdown longIdentifier = [longIdentifier] := by
    show (if longIdentifier = "" then [] else [longIdentifier]) = [longIdentifier]
    rw [if_neg (by decide)]
  -- the identifier is the whole body
  have hfound : longIdentifier ∈ findIdentifiers longIdentifier .default := by
    refine mem_findIdentifiers.mpr ⟨[], [], ⟨by simp, ⟨"ADR-", by decide, List.replicate 125 '1', ?_,
      by simp, ?_⟩, by simp⟩, rfl⟩
    · exact String.toList_ofList
    · intro c hc
      rw [List.eq_of_mem_replicate hc]
      decide
  have htarget : longIdentifier ∈
      documentTargets proseParsers longIdentifier .default proseMetadata := by
    rw [mem_documentTargets, markdownIdentifiers, mem_sortUniq, hmarkdown]
    exact ⟨Or.inr (by simpa using hfound), hne⟩
  exact hinvalid ((normalizeMarkdown_eq_ok.mp h).targets_valid _ (by simp [htarget]))

end Sample

end Rationale.Docs
