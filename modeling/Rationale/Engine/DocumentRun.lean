import Rationale.Engine.LocalEvidence
import Rationale.Engine.Plan

namespace Rationale.Engine

open Std Rationale.Library Rationale.Docs Rationale.Git Rationale.Store

/-!
# Runs over edited documents

Local synchronizations of one commit history, between which the documents change.

* `StableMetadata` — two batches use every identifier in the same way;
* `agreeOnIds_iff_stableMetadata` — that is what the store asks of their evidence;
* `synced_iff_stableMetadata` — a run over batches goes through exactly when they are pairwise
  stable: an edit to a record's metadata, or moving its file, refuses every later synchronization.
-/

/-- Documents of the two batches with one identifier have one record, file and status included.
    Under a commit's identifier the record is the commit's, and only the status of the relationships
    that the document publishes in both batches is left to agree. -/
structure StableMetadata (hash : String → String) (parsers : Parsers)
    (before after : LocalInputs) : Prop where
  records : ∀ d ∈ accepted (governedDocuments hash parsers before),
    ∀ d' ∈ accepted (governedDocuments hash parsers after), d.node.id = d'.node.id →
    ¬ CommitId before.history.commits d.node.id → d.node = d'.node
  statuses : ∀ d ∈ accepted (governedDocuments hash parsers before),
    ∀ d' ∈ accepted (governedDocuments hash parsers after), d.node.id = d'.node.id →
    CommitId before.history.commits d.node.id → d.node.origin = d'.node.origin →
    ∀ e ∈ d.edges, ∀ e' ∈ d'.edges, e.kind = e'.kind → e.sourceId = e'.sourceId →
      e.targetId = e'.targetId → EndsPublished hash parsers before e →
      EndsPublished hash parsers after e' → d.node.status = d'.node.status

/-! ### Two batches -/

section Pairs

variable {hash : String → String} {timestamp : Int → Option String} {parsers : Parsers}
  {before after : LocalInputs}

/-- Stable metadata gives one record for each identifier. -/
theorem StableMetadata.record_eq (h : StableMetadata hash parsers before after)
    (hcommits : before.history.commits = after.history.commits) {a b : EvidenceNode}
    (ha : a ∈ values (localPublication hash timestamp parsers before).evidence.records)
    (hb : b ∈ values (localPublication hash timestamp parsers after).evidence.records)
    (hid : a.id = b.id) : a = b := by
  rw [(localPublication hash timestamp parsers before).evidence.records_keyed.mem_values_iff] at ha
  rw [(localPublication hash timestamp parsers after).evidence.records_keyed.mem_values_iff,
    ← hid] at hb
  have ha := (getElem?_localRecords a.id).symm.trans ha
  have hb := (getElem?_localRecords a.id).symm.trans hb
  rw [← hcommits] at hb
  by_cases hcommit : CommitId before.history.commits a.id
  · -- the same commit defines the identifier in both batches
    obtain ⟨node, hnode⟩ := Option.ne_none_iff_exists'.mp
      (fun hnone => (@find?_commitNode_eq_none timestamp before.history.commits a.id).mp hnone hcommit)
    rw [hnode, Option.some_or] at ha hb
    exact Option.some.inj (ha.symm.trans hb)
  · rw [find?_commitNode_eq_none.mpr hcommit, Option.none_or] at ha hb
    obtain ⟨d, hd, rfl, -⟩ := definition_eq_some.mp ha
    obtain ⟨d', hd', rfl, hid'⟩ := definition_eq_some.mp hb
    exact h.records d hd d' hd' hid'.symm hcommit

/-- Stable metadata gives one relationship for each identifier. -/
theorem StableMetadata.edge_eq (h : StableMetadata hash parsers before after)
    {e e' : EvidenceEdge} (hsame : SameRelation e e') (he : e ∈ batchEdges hash parsers before)
    (he' : e' ∈ batchEdges hash parsers after) (hends : EndsPublished hash parsers before e)
    (hends' : EndsPublished hash parsers after e') : e = e' := by
  rcases documents_of_sameRelation hsame he he' with heq | hdocuments
  · exact heq
  · obtain ⟨d, hd, d', hd', hedge, hedge', hid, horigin, heq⟩ := hdocuments
    apply heq
    by_cases hcommit : CommitId before.history.commits d.node.id
    · exact h.statuses d hd d' hd' hid hcommit horigin e hedge e' hedge' hsame.kind hsame.source
        hsame.target hends hends'
    · rw [h.records d hd d' hd' hid hcommit]

/-- Relationships of two documents in one place have one identifier when they are the same. -/
theorem edge_id_eq {d d' : ParsedInput} (hd : Governed hash d) (hd' : Governed hash d')
    (horigin : d.node.origin = d'.node.origin) {e e' : EvidenceEdge} (he : e ∈ d.edges)
    (he' : e' ∈ d'.edges) (hkind : e.kind = e'.kind) (hsource : e.sourceId = e'.sourceId)
    (htarget : e.targetId = e'.targetId) : e.id = e'.id := by
  rw [hd.edges e he, hd'.edges e' he', hkind, hsource, htarget, horigin]
  rfl

/-- **Two batches** agree on their identifiers exactly when their metadata is stable. -/
theorem agreeOnIds_iff_stableMetadata (hcommits : before.history.commits = after.history.commits)
    (hids : DerivedIds (batchEdges hash parsers before ++ batchEdges hash parsers after)) :
    AgreeOnIds (localPublication hash timestamp parsers before)
        (localPublication hash timestamp parsers after) ↔
      StableMetadata hash parsers before after := by
  have hbefore : DerivedIds (batchEdges hash parsers before) := fun e he e' he' =>
    hids e (List.mem_append_left _ he) e' (List.mem_append_left _ he')
  have hafter : DerivedIds (batchEdges hash parsers after) := fun e he e' he' =>
    hids e (List.mem_append_right _ he) e' (List.mem_append_right _ he')
  have hedges : ∀ e, e ∈ values (localPublication hash timestamp parsers before).evidence.edges ↔
      e ∈ batchEdges hash parsers before ∧ EndsPublished hash parsers before e :=
    fun _ => mem_edges_local hbefore
  have hedges' : ∀ e, e ∈ values (localPublication hash timestamp parsers after).evidence.edges ↔
      e ∈ batchEdges hash parsers after ∧ EndsPublished hash parsers after e :=
    fun _ => mem_edges_local hafter
  constructor
  · intro h
    constructor
    case records =>
      intro d hd d' hd' hid hcommit
      have hcommit' : ¬ CommitId after.history.commits d'.node.id := by
        rwa [← hcommits, ← hid]
      exact h.records _ (mem_records_of_accepted hd hcommit) _ (mem_records_of_accepted hd' hcommit')
        hid
    case statuses =>
      intro d hd d' hd' hid _ horigin e he e' he' hkind hsource htarget hends hends'
      have hg := governed_of_accepted hd
      have hg' := governed_of_accepted hd'
      have hmem : e ∈ batchEdges hash parsers before :=
        List.mem_append_left _ (List.mem_flatMap.mpr ⟨d, hd, he⟩)
      have hmem' : e' ∈ batchEdges hash parsers after :=
        List.mem_append_left _ (List.mem_flatMap.mpr ⟨d', hd', he'⟩)
      -- equal ends, kind and origin give the two edges one identifier, so they are one edge; its
      -- status is the status of the document on either side
      have heq : e = e' := by
        apply h.edges e ((hedges e).mpr ⟨hmem, hends⟩) e' ((hedges' e').mpr ⟨hmem', hends'⟩)
        exact edge_id_eq hg hg' horigin he he' hkind hsource htarget
      have hstatus : e.status = d.node.status := by
        rw [hg.edges e he]
        rfl
      have hstatus' : e'.status = d'.node.status := by
        rw [hg'.edges e' he']
        rfl
      rw [← hstatus, ← hstatus', heq]
  · intro h
    constructor
    case records => exact fun a ha b hb hid => h.record_eq hcommits ha hb hid
    case edges =>
      intro e he e' he' hid
      obtain ⟨hmem, hends⟩ := (hedges e).mp he
      obtain ⟨hmem', hends'⟩ := (hedges' e').mp he'
      -- an identifier is shared only by edges with the same relation
      have hsame := hids e (List.mem_append_left _ hmem) e' (List.mem_append_right _ hmem') hid
      exact h.edge_eq hsame hmem hmem' hends hends'

end Pairs

/-! ### Runs -/

section Runs

variable {hash : String → String} {timestamp : Int → Option String} {parsers : Parsers}
  {batches : List LocalInputs}

/-- Local calls publish what they hold, whatever was published before. -/
theorem plan_offline : plan hash timestamp parsers (batches.map SyncCall.offline) =
    batches.map (localPublication hash timestamp parsers) := by
  induction batches using List.reverseRecOn with
  | nil => rfl
  | append_singleton batches batch ih =>
    rw [List.map_append, List.map_append, List.map_singleton, List.map_singleton, plan_concat, ih]
    rfl

/-- Local calls do not read the snapshot before them. -/
theorem priorsLoad_offline : PriorsLoad hash timestamp parsers (batches.map SyncCall.offline) := by
  intro before call after heq
  have hmem : call ∈ batches.map SyncCall.offline := by
    rw [heq]
    exact List.mem_append_right _ List.mem_cons_self
  obtain ⟨batch, -, rfl⟩ := List.mem_map.mp hmem
  trivial

/-- **Editing documents.** Over a fixed history, with new snapshot identifiers throughout, every
    batch is published exactly when the metadata of any two batches is stable. -/
theorem synced_iff_stableMetadata {commits : List CommitEvidence}
    (hfixed : ∀ batch ∈ batches, batch.history.commits = commits)
    (hnew : NewIds hash (batches.map (localPublication hash timestamp parsers)))
    (hids : DerivedIds (batches.flatMap (batchEdges hash parsers))) :
    (∃ publications db, Synced hash timestamp parsers (fun _ _ _ => True)
      (batches.map SyncCall.offline) publications db) ↔
      batches.Pairwise (StableMetadata hash parsers) := by
  have hnew' : NewIds hash (plan hash timestamp parsers (batches.map SyncCall.offline)) := by
    rw [plan_offline]
    exact hnew
  rw [exists_synced_iff hnew', plan_offline, List.pairwise_map]
  rw [and_iff_left priorsLoad_offline]
  apply List.Pairwise.iff_of_mem
  intro before after hbefore hafter
  apply agreeOnIds_iff_stableMetadata
  · rw [hfixed before hbefore, hfixed after hafter]
  · have hsub : ∀ e ∈ batchEdges hash parsers before ++ batchEdges hash parsers after,
        e ∈ batches.flatMap (batchEdges hash parsers) := by
      intro e he
      rcases List.mem_append.mp he with he | he
      · exact List.mem_flatMap.mpr ⟨before, hbefore, he⟩
      · exact List.mem_flatMap.mpr ⟨after, hafter, he⟩
    exact fun e he e' he' => hids e (hsub e he) e' (hsub e' he')

end Runs

/-! ### Decisions that are added or edited -/

/-- One commit, and these documents. -/
def documentBatch (documents : List DocumentInput) : LocalInputs :=
  ⟨⟨[firstCommit], true⟩, documents, [], "now"⟩

/-- First one decision, and then a second one that supersedes it. -/
def addedDecision : List LocalInputs :=
  [documentBatch [decisionDocument "adr-1.md" acceptedText],
   documentBatch [decisionDocument "adr-1.md" acceptedText,
     decisionDocument "adr-2.md" successorText]]

/-- A decision that is marked as historical. -/
def retiredDecision : List LocalInputs :=
  [documentBatch [decisionDocument "adr-1.md" acceptedText],
   documentBatch [decisionDocument "adr-1.md" historicalText]]

set_option maxRecDepth 2000

/-- Adding a decision is published. -/
theorem synced_addedDecision : ∃ publications db,
    Synced id (fun _ => none) decisionParsers (fun _ _ _ => True)
      (addedDecision.map SyncCall.offline) publications db := by
  have hnew : NewIds id (addedDecision.map (localPublication id (fun _ => none) decisionParsers)) := by
    unfold NewIds
    decide
  have hids : DerivedIds (addedDecision.flatMap (batchEdges id decisionParsers)) := by
    have hlist : addedDecision.flatMap (batchEdges id decisionParsers) =
        [edge id .supersedes "ADR-2" "ADR-1" .current ⟨.document, "adr-2.md#rationale", none, none⟩] := by
      decide
    rw [hlist]
    exact derivedIds_of_forall_eq (fun _ => List.mem_singleton.mp)
  refine (@synced_iff_stableMetadata id (fun _ => none) decisionParsers addedDecision [firstCommit]
    (by decide) hnew hids).mpr ?_
  refine List.pairwise_pair.mpr ⟨?_, ?_⟩
  · decide
  · -- no decision has the identifier of the commit
    intro d hd d' hd' _ hcommit
    have hnone : ∀ d ∈ accepted (governedDocuments id decisionParsers
        (documentBatch [decisionDocument "adr-1.md" acceptedText])),
        ¬ CommitId [firstCommit] d.node.id := by
      decide
    exact absurd hcommit (hnone d hd)

/-- Marking a published decision as historical is not: each batch is published by itself, and the
    second one is refused after the first. -/
theorem not_synced_retiredDecision :
    (∀ batch ∈ retiredDecision, batch.history.commits = [firstCommit] ∧
      ∃ db, (localPublication id (fun _ => none) decisionParsers batch).Publishes id Database.empty
        db) ∧
    NewIds id (retiredDecision.map (localPublication id (fun _ => none) decisionParsers)) ∧
    ¬ ∃ publications db, Synced id (fun _ => none) decisionParsers (fun _ _ _ => True)
      (retiredDecision.map SyncCall.offline) publications db := by
  have hnew : NewIds id
      (retiredDecision.map (localPublication id (fun _ => none) decisionParsers)) := by
    unfold NewIds
    decide
  refine ⟨fun batch hbatch => ⟨?_, _, publishes_empty _⟩, hnew, fun hsynced => ?_⟩
  · revert batch
    decide
  · rw [exists_synced_iff (by rwa [plan_offline]), plan_offline] at hsynced
    have hagree := List.pairwise_pair.mp hsynced.1
    have hdiffer : ∃ a ∈ values (localPublication id (fun _ => none) decisionParsers
          (documentBatch [decisionDocument "adr-1.md" acceptedText])).evidence.records,
        ∃ b ∈ values (localPublication id (fun _ => none) decisionParsers
          (documentBatch [decisionDocument "adr-1.md" historicalText])).evidence.records,
        a.id = b.id ∧ a ≠ b := by
      decide
    obtain ⟨a, ha, b, hb, hid, hne⟩ := hdiffer
    exact hne (hagree.records a ha b hb hid)

end Rationale.Engine
