import Rationale.Engine.CandidateStage
import Rationale.Engine.Deferred
import Rationale.Engine.HostLimits

namespace Rationale.Engine

open Std Rationale.Library Rationale.Git Rationale.Store

/-!
# Recorded explanations

The kernel sees a request, not the store.  What `why` returns is nevertheless evidence of the current
snapshot: only the target, and its edges to the commits that Git names, are added on the way.

* `mem_nodes_proofRequest`, `mem_edges_proofRequest` — where the rows of a request come from;
* `RecordedChain`, `RecordedConflict` — chains and conflicts in terms of the snapshot;
* `recorded_of_why` — the chains and conflicts of every answer are recorded.
-/

/-- The supervisor answers as the kernel does, or is unavailable. -/
structure KernelSupervisor (supervisor : KernelRequest → Except EngineError KernelResponse) :
    Prop where
  answers : ∀ request response, supervisor request = .ok response →
    Kernel.evaluate request = some response
  unavailable : ∀ request error, supervisor request = .error error →
    ∃ detail, error = .proofUnavailable detail

theorem kernelSupervisor_spec : KernelSupervisor kernelSupervisor where
  answers request response h := by
    unfold kernelSupervisor at h
    split at h
    · next response' heval => rw [heval, Except.ok.inj h]
    · exact nomatch h
  unavailable request error h := by
    unfold kernelSupervisor at h
    split at h
    · exact nomatch h
    · exact ⟨_, (Except.error.inj h).symm⟩

/-- The identifier of the record of a target. -/
def targetRecordId (hash : String → String) : ResolvedTarget → String
  | .commit commit => commit.id
  | .lines path startLine endLine revision _ _ => codeTargetId hash path startLine endLine revision

/-- A chain of the snapshot.  Only its first edge can be one that the target adds. -/
structure RecordedChain (hash : String → String) (full : GraphSlice) (evidence : ResolvedTarget)
    (chain : ProofChain) : Prop where
  starts : chain.nodeIds.head? = some (targetRecordId hash evidence)
  length : chain.nodeIds.length = chain.edgeIds.length + 1
  link : ∀ i id, chain.edgeIds[i]? = some id → ∃ edge : EvidenceEdge, edge.id = id ∧
    (edge ∈ full.edges ∨ i = 0 ∧ edge ∈ attachedEdges hash full evidence) ∧
    edge.status = .current ∧ edge.kind ≠ .supersedes ∧
    chain.nodeIds[i]? = some edge.sourceId ∧ chain.nodeIds[i + 1]? = some edge.targetId
  recorded : ∀ i id, chain.nodeIds[i + 1]? = some id →
    ∃ node ∈ full.nodes, node.id = id ∧ node.status = .current
  ends : ∃ node ∈ full.nodes, chain.nodeIds.getLast? = some node.id ∧ node.status = .current ∧
    (node.kind = .decision ∨ node.kind = .workItem)

/-- A conflict of the snapshot: one that a document declares, or two decisions about one subject with
    different outcomes. -/
def RecordedConflict (full : GraphSlice) (conflict : Conflict) : Prop :=
  conflict ∈ full.conflicts ∨ ∃ left ∈ full.nodes, ∃ right ∈ full.nodes,
    left.id = conflict.leftNodeId ∧ right.id = conflict.rightNodeId ∧
    left.kind = .decision ∧ right.kind = .decision ∧
    left.status = .current ∧ right.status = .current ∧
    left.subjectId.isSome ∧ left.subjectId = right.subjectId ∧ left.outcomeId ≠ right.outcomeId

/-! ### Where the rows of a request come from -/

section Request

variable {hash : String → String} {timestamp : Int → Option String} {target : String}
  {evidence : ResolvedTarget} {slice full : GraphSlice}

theorem targetId_proofRequest : (proofRequest hash timestamp target evidence slice).goal.targetId =
    targetRecordId hash evidence := by
  cases evidence <;> rfl

theorem mem_of_getElem?_indexBy {α : Type} {key : α → String} {l : List α} {k : String} {a : α}
    (h : (indexBy key l : StringMap α)[k]? = some a) : a ∈ l := by
  rcases mem_or_of_getElem?_insertAll h with ⟨hmem, -⟩ | hempty
  · exact hmem
  · simp at hempty

/-- A record of the request is the target's, a commit that the slice lacks, or a record of the
    slice. -/
theorem mem_nodes_proofRequest {node : EvidenceNode}
    (hnode : node ∈ (proofRequest hash timestamp target evidence slice).nodes) :
    node ∈ slice.nodes ∨ node.kind = .change ∧ node.id ∉ slice.nodes.map (·.id) ∨
      node.kind = .codeTarget ∧ node.id = targetRecordId hash evidence := by
  obtain ⟨k, hk⟩ := mem_values.mp hnode
  cases evidence with
  | commit commit =>
    have hk : (insertNewAll EvidenceNode.id (Graph.ofSlice slice).nodes
        [commitNode timestamp commit])[k]? = some node := hk
    rcases mem_or_of_getElem?_insertNewAll hk with hstored | ⟨hnone, hmem, hid⟩
    · exact Or.inl (mem_of_getElem?_indexBy hstored)
    · refine Or.inr (Or.inl ⟨?_, fun hpresent => ?_⟩)
      · rw [List.mem_singleton.mp hmem]
        rfl
      · rw [hid, ← mem_nodes_ofSlice, ← ExtTreeMap.isSome_getElem?_iff_mem, hnone] at hpresent
        exact Bool.false_ne_true hpresent
  | lines path startLine endLine revision introducedBy changedBy =>
    have hk : (attachTarget hash timestamp (.lines path startLine endLine revision introducedBy
        changedBy) (Graph.ofSlice slice)).2.nodes[k]? = some node := hk
    unfold attachTarget at hk
    dsimp only at hk
    rw [foldl_attachAttribution] at hk
    rcases mem_or_of_getElem?_insertNewAll hk with hstored | ⟨hnone, hmem, hid⟩
    · rw [ExtTreeMap.getElem?_insert] at hstored
      split at hstored
      · rw [← Option.some.inj hstored]
        exact Or.inr (Or.inr ⟨rfl, rfl⟩)
      · exact Or.inl (mem_of_getElem?_indexBy hstored)
    · obtain ⟨attribution, -, rfl⟩ := List.mem_map.mp hmem
      refine Or.inr (Or.inl ⟨rfl, fun hpresent => ?_⟩)
      rw [hid, ← mem_nodes_ofSlice] at hpresent
      rw [← Option.not_isSome_iff_eq_none, ExtTreeMap.isSome_getElem?_iff_mem,
        ExtTreeMap.mem_insert] at hnone
      exact hnone (Or.inr hpresent)

/-- An edge of the request is one of the slice or leads from the target. -/
theorem mem_edges_proofRequest {edge : EvidenceEdge}
    (hedge : edge ∈ (proofRequest hash timestamp target evidence slice).edges) :
    edge ∈ slice.edges ∨ edge ∈ attachedEdges hash slice evidence := by
  obtain ⟨k, hk⟩ := mem_values.mp hedge
  cases evidence with
  | commit commit =>
    have hk : (attachCommitReferences hash commit
        ⟨(Graph.ofSlice slice).nodes.insertIfNew commit.id (commitNode timestamp commit),
          (Graph.ofSlice slice).edges⟩).edges[k]? = some edge := hk
    rw [edges_attachCommitReferences] at hk
    rcases mem_or_of_getElem?_insertAll hk with ⟨hmem, -⟩ | hstored
    · obtain ⟨hreference, hpresent⟩ := List.mem_filter.mp hmem
      rw [ExtTreeMap.contains_iff_mem, ExtTreeMap.mem_insertIfNew, mem_nodes_ofSlice,
        Std.compare_eq_iff_eq] at hpresent
      refine Or.inr (List.mem_filter.mpr ⟨hreference, decide_eq_true ?_⟩)
      exact hpresent.symm.imp_right Eq.symm
    · exact Or.inl (mem_of_getElem?_indexBy hstored)
  | lines path startLine endLine revision introducedBy changedBy =>
    have hk : (attachTarget hash timestamp (.lines path startLine endLine revision introducedBy
        changedBy) (Graph.ofSlice slice)).2.edges[k]? = some edge := hk
    unfold attachTarget at hk
    dsimp only at hk
    rw [foldl_attachAttribution] at hk
    rcases mem_or_of_getElem?_insertAll hk with ⟨hmem, -⟩ | hstored
    · exact Or.inr hmem
    · exact Or.inl (mem_of_getElem?_indexBy hstored)

theorem sourceId_attachedEdges {edge : EvidenceEdge}
    (hedge : edge ∈ attachedEdges hash slice evidence) :
    edge.sourceId = targetRecordId hash evidence := by
  cases evidence with
  | commit commit => exact reference_sourceId (List.mem_of_mem_filter hedge)
  | lines path startLine endLine revision introducedBy changedBy =>
    obtain ⟨attribution, -, rfl⟩ := List.mem_map.mp hedge
    rfl

/-- A wider slice has more for the target to lead to. -/
theorem attachedEdges_mono (hnodes : ∀ node ∈ slice.nodes, node ∈ full.nodes) {edge : EvidenceEdge}
    (hedge : edge ∈ attachedEdges hash slice evidence) :
    edge ∈ attachedEdges hash full evidence := by
  cases evidence with
  | commit commit =>
    obtain ⟨hreference, hpresent⟩ := List.mem_filter.mp hedge
    refine List.mem_filter.mpr ⟨hreference, ?_⟩
    rw [decide_eq_true_eq, List.mem_map] at hpresent ⊢
    exact hpresent.imp_left fun ⟨node, hnode, hid⟩ => ⟨node, hnodes node hnode, hid⟩
  | lines path startLine endLine revision introducedBy changedBy => exact hedge

end Request

/-! ### Chains and conflicts of a request -/

section Recorded

variable {hash : String → String} {timestamp : Int → Option String} {target : String}
  {evidence : ResolvedTarget} {full slice : GraphSlice} {seedIds : List String}
  (hslice : ClosureSlice full seedIds slice)

include hslice

/-- A record of the request under an identifier of the slice is a record of the snapshot, unless it
    is the target. -/
theorem recorded_of_active {id : String}
    (hactive : Kernel.Active (proofRequest hash timestamp target evidence slice) id)
    (hid : id ∈ slice.nodes.map (·.id)) (hne : id ≠ targetRecordId hash evidence) :
    ∃ node ∈ full.nodes, node.id = id ∧ node.status = .current := by
  obtain ⟨node, hnode, rfl⟩ := hactive
  rcases mem_nodes_proofRequest hnode.mem with hmem | ⟨-, habsent⟩ | ⟨-, htarget⟩
  · exact ⟨node, ((hslice.mem_nodes node).mp hmem).1, rfl, hnode.current⟩
  · exact absurd hid habsent
  · exact absurd htarget hne

/-- Decisions and work items are records of the snapshot. -/
theorem mem_full_of_kind {node : EvidenceNode}
    (hnode : node ∈ (proofRequest hash timestamp target evidence slice).nodes)
    (hkind : node.kind = .decision ∨ node.kind = .workItem) : node ∈ full.nodes := by
  rcases mem_nodes_proofRequest hnode with hmem | ⟨hchange, -⟩ | ⟨hcode, -⟩
  · exact ((hslice.mem_nodes node).mp hmem).1
  · rw [hchange] at hkind
    exact absurd hkind (by decide)
  · rw [hcode] at hkind
    exact absurd hkind (by decide)

/-- **Chains.** Beyond its first edge a chain cannot leave the target again, so it runs in the
    snapshot. -/
theorem recordedChain_of_soundChain {chain : ProofChain}
    (hchain : Kernel.SoundChain (proofRequest hash timestamp target evidence slice) chain) :
    RecordedChain hash full evidence chain := by
  have hstarts : chain.nodeIds.head? = some (targetRecordId hash evidence) := by
    rw [hchain.starts, targetId_proofRequest]
  -- no later node is the target
  have hlater : ∀ i id, chain.nodeIds[i + 1]? = some id → id ≠ targetRecordId hash evidence := by
    rintro i id hid rfl
    rw [List.head?_eq_getElem?] at hstarts
    obtain ⟨hlt, hget⟩ := List.getElem?_eq_some_iff.mp hid
    obtain ⟨hlt', hget'⟩ := List.getElem?_eq_some_iff.mp hstarts
    have heq := (List.Nodup.getElem_inj_iff hchain.nodup).mp (hget.trans hget'.symm)
    omega
  have hends : ∃ node ∈ full.nodes, chain.nodeIds.getLast? = some node.id ∧
      node.status = .current ∧ (node.kind = .decision ∨ node.kind = .workItem) := by
    obtain ⟨id, hlast, node, hnode, rfl, hkind⟩ := hchain.ends
    have hkind : node.kind = .decision ∨ node.kind = .workItem := by
      have hkind : node.kind ∈ [NodeKind.decision, .workItem] := hkind
      simpa using hkind
    exact ⟨node, mem_full_of_kind hslice hnode.mem hkind, hlast, hnode.current, hkind⟩
  have hedges : ∀ i (edge : EvidenceEdge),
      edge ∈ (proofRequest hash timestamp target evidence slice).edges →
      chain.nodeIds[i]? = some edge.sourceId →
      edge ∈ slice.edges ∨ i = 0 ∧ edge ∈ attachedEdges hash slice evidence := by
    intro i edge hedge hsource
    refine (mem_edges_proofRequest hedge).imp_right fun hattached => ⟨?_, hattached⟩
    cases i with
    | zero => rfl
    | succ i => exact absurd (sourceId_attachedEdges hattached) (hlater i _ hsource)
  constructor
  case starts => exact hstarts
  case length => exact hchain.length
  case ends => exact hends
  case link =>
    intro i id hid
    obtain ⟨edge, hedge, hname, hcurrent, hkind, hsource, htarget, -, -⟩ := hchain.link i id hid
    refine ⟨edge, hname, ?_, hcurrent, hkind, hsource, htarget⟩
    exact (hedges i edge hedge hsource).imp (fun hmem => ((hslice.mem_edges edge).mp hmem).1)
      (fun ⟨hzero, hattached⟩ => ⟨hzero, attachedEdges_mono
        (fun node hnode => ((hslice.mem_nodes node).mp hnode).1) hattached⟩)
  case recorded =>
    intro i id hid
    have hlt := (List.getElem?_eq_some_iff.mp hid).1
    cases hnext : chain.edgeIds[i + 1]? with
    | some name =>
      -- an edge of the slice leads on from here
      obtain ⟨edge, hedge, -, -, -, hsource, -, hactive, -⟩ := hchain.link (i + 1) name hnext
      obtain rfl := Option.some.inj (hid.symm.trans hsource)
      rcases hedges (i + 1) edge hedge hsource with hmem | ⟨hzero, -⟩
      · exact recorded_of_active hslice hactive (List.mem_map.mpr (hslice.edges_closed edge hmem).1)
          (hlater i _ hid)
      · omega
    | none =>
      -- the chain ends here
      obtain ⟨node, hnode, hlast, hcurrent, -⟩ := hends
      have hlength := hchain.length
      have hle := List.getElem?_eq_none_iff.mp hnext
      rw [List.getLast?_eq_getElem?] at hlast
      have hi : chain.nodeIds.length - 1 = i + 1 := by omega
      rw [hi, hid] at hlast
      exact ⟨node, hnode, (Option.some.inj hlast).symm, hcurrent⟩

/-- **Conflicts.** -/
theorem recordedConflict_of_material {conflict : Conflict}
    (h : Kernel.MaterialConflict (proofRequest hash timestamp target evidence slice) conflict) :
    RecordedConflict full conflict := by
  cases h with
  | explicit hmem => exact Or.inl ((hslice.mem_conflicts conflict).mp hmem).1
  | outcomes hleft hright _ _ hleftKind hrightKind hleftSubject hrightSubject hleftOutcome
      hrightOutcome hdiffer =>
    refine Or.inr ⟨_, mem_full_of_kind hslice hleft.mem (Or.inl hleftKind), _,
      mem_full_of_kind hslice hright.mem (Or.inl hrightKind), rfl, rfl, hleftKind, hrightKind,
      hleft.current, hright.current, ?_, ?_, ?_⟩
    · rw [hleftSubject]
      rfl
    · rw [hleftSubject, hrightSubject]
    · rw [hleftOutcome, hrightOutcome]
      exact fun heq => hdiffer (Option.some.inj heq)

end Recorded

/-! ### Answers -/

section Why

variable {hash : String → String} {timestamp : Int → Option String}
  {observedSecond : String → Option Int} {resolver : Resolver}
  {supervisor : KernelRequest → Except EngineError KernelResponse} {db : Database} {target : String}
  {result : WhyResult}

/-- **What `why` returns is recorded.** In every database that the store reaches, whatever the target,
    each chain and each conflict of the answer is one of the current snapshot, and an established
    answer has a chain. -/
theorem recorded_of_why (hdb : Store.Reachable db) (hkernel : KernelSupervisor supervisor)
    (h : why hash timestamp observedSecond resolver supervisor db target = .ok result) :
    ∃ parsed evidence full, TargetSpec.fromStr target = .ok parsed ∧
      resolver.resolveForProof parsed = .ok evidence ∧ currentSlice db = some full ∧
      result.freshness = freshnessViews full.sources ∧
      ∀ version requestId snapshotId proof,
        result.response = .proof version requestId snapshotId proof →
        snapshotId = full.snapshotId ∧
        (∀ chain ∈ proof.proofChains, RecordedChain hash full evidence chain) ∧
        (∀ conflict ∈ proof.conflicts, RecordedConflict full conflict) ∧
        (proof.verdict = .established → proof.proofChains ≠ []) := by
  obtain ⟨parsed, evidence, slice, hanswered⟩ := why_eq_ok.mp h
  obtain ⟨id, hid, -⟩ := loadCurrentProofSlice_eq_ok.mp hanswered.loaded
  have hslice := closureSlice_of_load hdb.valid hid hanswered.loaded
  refine ⟨parsed, evidence, snapshotSlice db id, hanswered.accepted, hanswered.resolved, ?_, ?_, ?_⟩
  · unfold currentSlice
    rw [hid]
    rfl
  · obtain ⟨_, hid', -, -, -, -, heq⟩ := loadCurrentProofSlice_eq_ok.mp hanswered.loaded
    obtain rfl := Option.some.inj (hid.symm.trans hid')
    rw [hanswered.sources, heq]
    rfl
  intro version requestId snapshotId proof hproof
  have heval := hkernel.answers _ _ hanswered.evaluated
  rw [hproof] at heval
  have hverdict := Kernel.verdictSpec_of_evaluate heval
  have hids : snapshotId = slice.snapshotId := by
    obtain ⟨hv, traversal, ht, -⟩ := Kernel.evaluate_eq_proof heval
    rw [Kernel.evaluate_of_traversal hv ht, Option.map_eq_some_iff] at heval
    obtain ⟨_, -, heq⟩ := heval
    exact (KernelResponse.proof.inj heq).2.2.1.symm
  refine ⟨hids.trans hslice.snapshotId, fun chain hchain => ?_, fun conflict hconflict => ?_, ?_⟩
  · rcases Kernel.proofChains_of_evaluate heval with ⟨-, hnone⟩ | ⟨-, anchors, hmem, hchains⟩
    · rw [hnone] at hchain
      exact absurd hchain List.not_mem_nil
    · rw [hchains] at hchain
      exact recordedChain_of_soundChain hslice
        ((Kernel.chainsSpec_established hmem).sound chain hchain)
  · exact recordedConflict_of_material hslice ((hverdict.mem_conflicts conflict).mp hconflict)
  · intro hestablished
    have hno : ¬ ∃ conflict, Kernel.MaterialConflict
        (proofRequest hash timestamp target evidence slice) conflict := fun hex =>
      nomatch hestablished.symm.trans (hverdict.conflicted_iff.mpr hex)
    obtain ⟨nodeIds, edges, hpath⟩ := (hverdict.established_iff_anchorPath hno).mp hestablished
    rcases Kernel.proofChains_of_evaluate heval with ⟨hex, -⟩ | ⟨-, anchors, hmem, hchains⟩
    · exact absurd hex hno
    · obtain ⟨chain, hchain, -⟩ := (Kernel.chainsSpec_established hmem).complete nodeIds edges hpath
      rw [hchains]
      exact List.ne_nil_of_mem hchain

end Why

/-- Git resolves every target to the commit that names a decision. -/
def decidedResolver : Resolver :=
  ⟨fun _ => .ok (.commit decidingCommit), fun _ => .ok (.commit decidingCommit)⟩

/-- The chain from this commit to its decision. -/
def followedChain : ProofChain :=
  ⟨["c0ffee", "ADR-1"], [followedEdge.id], ["edge.current", "path.admissible", "anchor.current"]⟩

/-- What is returned for the commit while its decision stands. -/
def decidedResult : WhyResult where
  target := "commit:c0ffee"
  response := decidedAnswer (decidedSlice standingDecision) followedProof
  candidates := []
  freshness := freshnessViews (reachableSlice (decidedSlice standingDecision) ["c0ffee"]).sources

set_option maxRecDepth 8000 in
theorem why_decided {db : Database}
    (hload : loadCurrentProofSlice db ["c0ffee"] proofSliceLimits =
      .ok (some (reachableSlice (decidedSlice standingDecision) ["c0ffee"]))) :
    why id (fun _ => none) (fun _ => none) decidedResolver kernelSupervisor db "commit:c0ffee" =
      .ok decidedResult := by
  have heval : Kernel.evaluate
      (decidedRequest (reachableSlice (decidedSlice standingDecision) ["c0ffee"])) =
        some (decidedAnswer (decidedSlice standingDecision) followedProof) := by
    decide
  have hsupervisor : kernelSupervisor
      (decidedRequest (reachableSlice (decidedSlice standingDecision) ["c0ffee"])) =
        .ok (decidedAnswer (decidedSlice standingDecision) followedProof) := by
    unfold kernelSupervisor
    rw [heval]
  exact why_eq_ok.mpr ⟨.commit "c0ffee", .commit decidingCommit, _, by decide, by decide, rfl, hload,
    hsupervisor, rfl, rfl, rfl⟩

set_option maxRecDepth 8000 in
theorem recorded_of_why_sample : ∃ db full,
    why id (fun _ => none) (fun _ => none) decidedResolver kernelSupervisor db "commit:c0ffee" =
      .ok decidedResult ∧
    currentSlice db = some full ∧ RecordedChain id full (.commit decidingCommit) followedChain := by
  obtain ⟨db, hdb, hload, -⟩ := @loads_decidedSlice standingDecision (by decide)
  have hwhy := why_decided hload
  obtain ⟨_, evidence, full, -, hresolved, hfull, -, hproof⟩ :=
    recorded_of_why hdb kernelSupervisor_spec hwhy
  obtain rfl := Except.ok.inj hresolved
  refine ⟨db, full, hwhy, hfull, ?_⟩
  exact (hproof _ _ _ _ rfl).2.1 followedChain (List.mem_singleton_self _)

end Rationale.Engine
