import Rationale.Engine.ProofInput
import Rationale.Engine.DecisionLog

namespace Rationale.Engine

open Std Rationale.Library Rationale.Docs Rationale.Git Rationale.Store

/-!
# The host's limits and the kernel's

`why` loads a proof slice within its own limits, attaches the target to it, and sends the result to a
kernel with limits of its own.

* `attachedIds`, `attachedEdges` — what a target adds to a slice;
* `AttachFits` — the slice has room for it;
* `request_within_limits_iff` — the kernel's limits hold of the request exactly then.
-/

section Attach

variable (hash : String → String)

/-- The identifiers of the records that a target needs. -/
def attachedIds : ResolvedTarget → List String
  | .commit commit => [commit.id]
  | .lines path startLine endLine revision introducedBy _ =>
      codeTargetId hash path startLine endLine revision :: introducedBy.map (·.commitId)

/-- The edges that lead from a target to records that are then present. -/
def attachedEdges (slice : GraphSlice) : ResolvedTarget → List EvidenceEdge
  | .commit commit => (commitReferenceEdges hash commit).filter fun edge =>
      edge.targetId ∈ slice.nodes.map (·.id) ∨ edge.targetId = commit.id
  | .lines path startLine endLine revision introducedBy _ => introducedBy.map fun attribution =>
      evidenceEdge hash .introducedBy (codeTargetId hash path startLine endLine revision)
        attribution.commitId (codeTargetOrigin path startLine endLine revision)

/-- The distinct identifiers that are not present. -/
def missing (present ids : List String) : List String :=
  (sortUniq compare ids).filter (· ∉ present)

/-- A slice has room for a target: what it holds and what the target adds stay within the kernel's
    limits. -/
structure AttachFits (slice : GraphSlice) (evidence : ResolvedTarget) : Prop where
  nodes : slice.nodes.length +
    (missing (slice.nodes.map (·.id)) (attachedIds hash evidence)).length ≤ Kernel.maxNodes
  edges : slice.edges.length + (missing (slice.edges.map (·.id))
    ((attachedEdges hash slice evidence).map (·.id))).length ≤ Kernel.maxEdges

end Attach

/-! ### What a target adds -/

section Members

variable {hash : String → String} {timestamp : Int → Option String} {slice : GraphSlice}
  {evidence : ResolvedTarget} {k : String}

theorem mem_nodes_ofSlice : k ∈ (Graph.ofSlice slice).nodes ↔ k ∈ slice.nodes.map (·.id) := by
  rw [List.mem_map]
  exact mem_indexBy

theorem mem_edges_ofSlice : k ∈ (Graph.ofSlice slice).edges ↔ k ∈ slice.edges.map (·.id) := by
  rw [List.mem_map]
  exact mem_indexBy

/-- The records of the request are the slice's and the target's. -/
theorem mem_nodes_attachTarget_iff :
    k ∈ (attachTarget hash timestamp evidence (Graph.ofSlice slice)).2.nodes ↔
      k ∈ slice.nodes.map (·.id) ∨ k ∈ attachedIds hash evidence := by
  cases evidence with
  | commit commit =>
    show k ∈ (Graph.ofSlice slice).nodes.insertIfNew commit.id (commitNode timestamp commit) ↔
      _ ∨ k ∈ [commit.id]
    rw [ExtTreeMap.mem_insertIfNew, mem_nodes_ofSlice, List.mem_singleton, Std.compare_eq_iff_eq,
      or_comm, eq_comm]
  | lines path startLine endLine revision introducedBy changedBy =>
    unfold attachTarget
    dsimp only
    rw [foldl_attachAttribution, mem_insertNewAll, ExtTreeMap.mem_insert, mem_nodes_ofSlice,
      Std.compare_eq_iff_eq, attachedIds, List.mem_cons, eq_comm, or_comm (b := k ∈ _), or_assoc]
    have hnames : (∃ node ∈ introducedBy.map (attributedNode ·.commitId), node.id = k) ↔
        k ∈ introducedBy.map (·.commitId) := by
      rw [← List.mem_map (f := EvidenceNode.id), List.map_map]
      rfl
    rw [hnames]

/-- The edges of the request are the slice's and the target's. -/
theorem mem_edges_attachTarget_iff :
    k ∈ (attachTarget hash timestamp evidence (Graph.ofSlice slice)).2.edges ↔
      k ∈ slice.edges.map (·.id) ∨ k ∈ (attachedEdges hash slice evidence).map (·.id) := by
  cases evidence with
  | commit commit =>
    let nodes := (Graph.ofSlice slice).nodes.insertIfNew commit.id (commitNode timestamp commit)
    have hpresent : ∀ edge ∈ commitReferenceEdges hash commit,
        nodes.contains edge.targetId =
          decide (edge.targetId ∈ slice.nodes.map (·.id) ∨ edge.targetId = commit.id) := by
      intro edge _
      rw [Bool.eq_iff_iff, decide_eq_true_eq, ExtTreeMap.contains_iff_mem,
        ExtTreeMap.mem_insertIfNew, mem_nodes_ofSlice, Std.compare_eq_iff_eq, or_comm,
        eq_comm (a := edge.targetId)]
    show k ∈ (attachCommitReferences hash commit ⟨nodes, (Graph.ofSlice slice).edges⟩).edges ↔ _
    rw [edges_attachCommitReferences, mem_insertAll, mem_edges_ofSlice, attachedEdges,
      List.filter_congr hpresent, ← List.mem_map (f := EvidenceEdge.id)]
  | lines path startLine endLine revision introducedBy changedBy =>
    unfold attachTarget
    dsimp only
    rw [foldl_attachAttribution, mem_insertAll, mem_edges_ofSlice, attachedEdges]
    rw [← List.mem_map (f := EvidenceEdge.id)]

end Members

/-! ### The request -/

section Request

variable {hash : String → String} {timestamp : Int → Option String} {slice full : GraphSlice}
  {seedIds : List String} {evidence : ResolvedTarget}

/-- The number of records of the request. -/
theorem length_nodes_proofRequest (hslice : ClosureSlice full seedIds slice) (target : String) :
    (proofRequest hash timestamp target evidence slice).nodes.length = slice.nodes.length +
      (missing (slice.nodes.map (·.id)) (attachedIds hash evidence)).length := by
  have hgraph := (@closedGraph_attachTarget hash timestamp _
    (closedGraph_ofSlice hslice.edges_closed) evidence).1
  have hnodup : (slice.nodes.map (·.id)).Nodup :=
    List.pairwise_map.mpr (pairwise_key_ne hslice.nodes_sorted)
  show (values (attachTarget hash timestamp evidence (Graph.ofSlice slice)).2.nodes).length = _
  rw [hgraph.nodes_keyed.length_values hnodup (fun _ => mem_nodes_attachTarget_iff),
    List.length_map]
  rfl

/-- The number of edges of the request. -/
theorem length_edges_proofRequest (hslice : ClosureSlice full seedIds slice) (target : String) :
    (proofRequest hash timestamp target evidence slice).edges.length = slice.edges.length +
      (missing (slice.edges.map (·.id))
        ((attachedEdges hash slice evidence).map (·.id))).length := by
  have hgraph := (@closedGraph_attachTarget hash timestamp _
    (closedGraph_ofSlice hslice.edges_closed) evidence).1
  have hnodup : (slice.edges.map (·.id)).Nodup :=
    List.pairwise_map.mpr (pairwise_key_ne hslice.edges_sorted)
  show (values (attachTarget hash timestamp evidence (Graph.ofSlice slice)).2.edges).length = _
  rw [hgraph.edges_keyed.length_values hnodup (fun _ => mem_edges_attachTarget_iff),
    List.length_map]
  rfl

/-- **The limits meet** exactly when the slice has room for the target.  Then, and only then, the
    request of `why` has at most the kernel's numbers of records and edges, and `validate` does not
    answer with a resource limit. -/
theorem request_within_limits_iff {db : Database} (hdb : Store.Reachable db)
    (hload : loadCurrentProofSlice db (proofSeedIds evidence) proofSliceLimits = .ok (some slice))
    (target : String) :
    ((proofRequest hash timestamp target evidence slice).nodes.length ≤ Kernel.maxNodes ∧
      (proofRequest hash timestamp target evidence slice).edges.length ≤ Kernel.maxEdges ∧
      ∀ failure, Kernel.validate (proofRequest hash timestamp target evidence slice) =
        .error failure → failure.1 ≠ .resourceLimit) ↔
      AttachFits hash slice evidence := by
  obtain ⟨id, hid, -⟩ := loadCurrentProofSlice_eq_ok.mp hload
  have hslice := closureSlice_of_load hdb.valid hid hload
  rw [length_nodes_proofRequest hslice, length_edges_proofRequest hslice]
  constructor
  · rintro ⟨hnodes, hedges, -⟩
    exact ⟨hnodes, hedges⟩
  · rintro ⟨hnodes, hedges⟩
    refine ⟨hnodes, hedges, fun failure hfailure hcode => ?_⟩
    -- a well-formed request within the limits passes
    have hwell := @wellFormed_proofRequest hash timestamp _ _ _ hslice target evidence
    have hvalid := Kernel.validate_eq_ok_iff.mpr ⟨(⟨hwell.version,
      (length_nodes_proofRequest hslice target).trans_le hnodes,
      (length_edges_proofRequest hslice target).trans_le hedges, hwell.anchors_ne,
      hwell.anchors_valid, hwell.nodes_nodup, hwell.edges_nodup, hwell.target_known,
      hwell.edges_known, hwell.conflicts_known⟩ :
        Kernel.Validated (proofRequest hash timestamp target evidence slice)), rfl⟩
    rw [hvalid] at hfailure
    exact nomatch hfailure

end Request

/-! ### Too many unknown commits -/

section Exceeded

/-- Lines that each have another commit. -/
def sweptLines (lines : Nat) : ResolvedTarget :=
  .lines "src/lib.rs" 1 lines (numberedCommit 0)
    ((List.range lines).map fun n => ⟨n + 1, numberedCommit n⟩) []

/-- The snapshot of a repository of one commit that follows some decisions. -/
def sweptSlice (decisions : Nat) : GraphSlice := (logPublication 1 decisions).slice id

variable {lines decisions : Nat}

/-- A slice loads when the whole snapshot is within the limits. -/
theorem loadCurrentProofSlice_of_small {db : Database} (hdb : Store.Reachable db) {full : GraphSlice}
    (hfull : currentSlice db = some full) {seedIds : List String} {limits : SliceLimits}
    (hseeds : seedIds.length ≤ limits.maxNodes) (hnodes : full.nodes.length ≤ limits.maxNodes)
    (hedges : full.edges.length ≤ limits.maxEdges)
    (hconflicts : full.conflicts.length ≤ limits.maxConflicts) :
    loadCurrentProofSlice db seedIds limits = .ok (some (reachableSlice full seedIds)) := by
  unfold currentSlice at hfull
  obtain ⟨id, hid, rfl⟩ := Option.map_eq_some_iff.mp hfull
  refine loadCurrentProofSlice_eq_ok.mpr ⟨id, hid, hseeds, ?_, ?_, ?_, rfl⟩
  · rw [reachableCount_eq hdb.valid hid]
    exact (List.length_filter_le _ _).trans hnodes
  · exact (List.length_filter_le _ _).trans hedges
  · exact (List.length_filter_le _ _).trans hconflicts

theorem mem_edges_sweptSlice (hd : decisions ≤ 100) {decision : Nat} (h : decision < decisions) :
    followsEdge 0 decision ∈ (sweptSlice decisions).edges := by
  show followsEdge 0 decision ∈ values (logPublication 1 decisions).evidence.edges
  have hmem : followsEdge 0 decision ∈ followsEdges 1 decisions :=
    List.mem_flatMap.mpr ⟨0, List.mem_range.mpr (by omega),
      List.mem_map_of_mem (List.mem_range.mpr h)⟩
  rw [edges_decisionLog hd, mem_values_indexBy]
  · exact hmem
  · intro a ha b hb hid
    obtain ⟨m, hm, ha⟩ := List.mem_flatMap.mp ha
    obtain ⟨i, hi, rfl⟩ := List.mem_map.mp ha
    obtain ⟨n, hn, hb⟩ := List.mem_flatMap.mp hb
    obtain ⟨j, hj, rfl⟩ := List.mem_map.mp hb
    rw [List.mem_range] at hm hi hn hj
    obtain ⟨rfl, rfl⟩ := followsEdge_id_inj (by omega) (by omega) (by omega) (by omega) hid
    rfl

/-- The records of the snapshot: the commit and its decisions. -/
theorem id_of_mem_sweptSlice (hd : decisions ≤ 100) {node : EvidenceNode}
    (h : node ∈ (sweptSlice decisions).nodes) :
    node.id = numberedCommit 0 ∨ ∃ decision < decisions, node.id = decisionId decision := by
  have hkey : node.id ∈ (logPublication 1 decisions).evidence.records :=
    (logPublication 1 decisions).evidence.records_keyed.mem_iff.mpr ⟨node, h, rfl⟩
  rcases List.mem_append.mp ((mem_records_decisionLog hd).mp hkey) with hmem | hmem
  · obtain ⟨n, hn, heq⟩ := List.mem_map.mp hmem
    obtain rfl : n = 0 := by
      have := List.mem_range.mp hn
      omega
    exact Or.inl heq.symm
  · obtain ⟨decision, hdecision, heq⟩ := List.mem_map.mp hmem
    exact Or.inr ⟨decision, List.mem_range.mp hdecision, heq.symm⟩

theorem zero_mem_proofSeedIds (h : 0 < lines) :
    numberedCommit 0 ∈ proofSeedIds (sweptLines lines) := by
  refine mem_sortUniq.mpr (List.mem_map.mpr ⟨⟨1, numberedCommit 0⟩, ?_, rfl⟩)
  exact List.mem_map.mpr ⟨0, List.mem_range.mpr h, rfl⟩

/-- The target reaches the whole snapshot. -/
theorem nodes_reachable_sweptSlice (hd : decisions ≤ 100) (h : 0 < lines) :
    (reachableSlice (sweptSlice decisions) (proofSeedIds (sweptLines lines))).nodes =
      (sweptSlice decisions).nodes := by
  refine List.filter_eq_self.mpr (fun node hnode => decide_eq_true (mem_reachable.mpr ?_))
  refine ⟨numberedCommit 0, zero_mem_proofSeedIds h, ?_⟩
  rcases id_of_mem_sweptSlice hd hnode with heq | ⟨decision, hdecision, heq⟩
  · rw [heq]
  · rw [heq]
    exact Relation.ReflTransGen.single
      (Or.inl ⟨followsEdge 0 decision, mem_edges_sweptSlice hd hdecision, rfl, rfl⟩)

theorem length_nodes_sweptSlice (hd : decisions ≤ 100) :
    (sweptSlice decisions).nodes.length = 1 + decisions := by
  show (values (logPublication 1 decisions).evidence.records).length = _
  exact length_records_decisionLog (by omega) hd

theorem length_edges_sweptSlice (hd : decisions ≤ 100) :
    (sweptSlice decisions).edges.length = decisions := by
  show (values (logPublication 1 decisions).evidence.edges).length = _
  rw [length_edges_decisionLog (by omega) hd, Nat.one_mul]

theorem conflicts_sweptSlice (hd : decisions ≤ 100) : (sweptSlice decisions).conflicts = [] := by
  show sortUniq compareConflicts (sortBy compareConflicts
    (logPublication 1 decisions).evidence.conflicts) = []
  rw [conflicts_decisionLog hd]
  exact sortUniq_eq_nil.mpr rfl

/-- The code target has an identifier of its own. -/
theorem length_codeTargetId (last : Nat) :
    40 < (codeTargetId id "src/lib.rs" 1 last (numberedCommit 0)).toList.length := by
  simp [codeTargetId, numberedCommit, hexDigits]
  omega

theorem length_numberedCommit (n : Nat) : (numberedCommit n).toList.length = 40 := by
  simp [numberedCommit, hexDigits]

theorem length_decisionId (n : Nat) : (decisionId n).toList.length = 6 := by
  simp [decisionId, decisionChars]

/-- The target adds itself and every commit but the first. -/
theorem length_missing_sweptLines (hd : decisions ≤ 100) (h : lines < 4096) :
    lines + 1 ≤ (missing ((sweptSlice decisions).nodes.map (·.id))
      (attachedIds id (sweptLines (lines + 1)))).length := by
  let code := codeTargetId id "src/lib.rs" 1 (lines + 1) (numberedCommit 0)
  have hcode : 40 < code.toList.length := length_codeTargetId (lines + 1)
  have hnodup : (code :: (List.range' 1 lines).map numberedCommit).Nodup := by
    refine List.nodup_cons.mpr ⟨fun hmem => ?_, ?_⟩
    · obtain ⟨n, -, heq⟩ := List.mem_map.mp hmem
      rw [← heq, length_numberedCommit] at hcode
      omega
    · refine List.Nodup.map_on (fun a ha b hb heq => ?_) List.nodup_range'
      rw [List.mem_range'_1] at ha hb
      exact numberedCommit_inj (by omega) (by omega) heq
  have hadded : ∀ k ∈ code :: (List.range' 1 lines).map numberedCommit,
      k ∈ attachedIds id (sweptLines (lines + 1)) := by
    intro k hk
    rcases List.mem_cons.mp hk with rfl | hk
    · exact List.mem_cons_self
    · obtain ⟨n, hn, rfl⟩ := List.mem_map.mp hk
      rw [List.mem_range'_1] at hn
      refine List.mem_cons_of_mem _ (List.mem_map.mpr ⟨⟨n + 1, numberedCommit n⟩, ?_, rfl⟩)
      exact List.mem_map.mpr ⟨n, List.mem_range.mpr (by omega), rfl⟩
  -- the snapshot has the first commit, and identifiers of six characters
  have habsent : ∀ k ∈ code :: (List.range' 1 lines).map numberedCommit,
      k ∉ (sweptSlice decisions).nodes.map (·.id) := by
    intro k hk hpresent
    obtain ⟨node, hnode, rfl⟩ := List.mem_map.mp hpresent
    rcases List.mem_cons.mp hk with heq | hk
    · rw [← heq] at hcode
      rcases id_of_mem_sweptSlice hd hnode with hid | ⟨decision, -, hid⟩
      · rw [hid, length_numberedCommit] at hcode
        omega
      · rw [hid, length_decisionId] at hcode
        omega
    · obtain ⟨n, hn, heq⟩ := List.mem_map.mp hk
      rw [List.mem_range'_1] at hn
      rcases id_of_mem_sweptSlice hd hnode with hid | ⟨decision, -, hid⟩
      · have hzero := numberedCommit_inj (by omega) (by omega) (heq.trans hid)
        omega
      · exact numberedCommit_ne_decisionId n decision (heq.trans hid)
  have hsubset : code :: (List.range' 1 lines).map numberedCommit ⊆ missing
      ((sweptSlice decisions).nodes.map (·.id)) (attachedIds id (sweptLines (lines + 1))) :=
    fun k hk => List.mem_filter.mpr
      ⟨mem_sortUniq.mpr (hadded k hk), decide_eq_true (habsent k hk)⟩
  have hlength := (hnodup.subperm hsubset).length_le
  rw [List.length_cons, List.length_map, List.length_range'] at hlength
  exact hlength

/-- The slice that is loaded after one call, for up to four thousand lines. -/
theorem loads_sweptSlice (hd : decisions ≤ 100) (hlines : lines ≤ 4000) :
    loadCurrentProofSlice ((logPublication 1 decisions).published id Database.empty)
      (proofSeedIds (sweptLines lines)) proofSliceLimits =
        .ok (some (reachableSlice (sweptSlice decisions) (proofSeedIds (sweptLines lines)))) := by
  have hdb : Store.Reachable ((logPublication 1 decisions).published id Database.empty) :=
    reachable_of_publishes Store.Reachable.empty (publishes_empty _)
  have hcurrent : currentSlice ((logPublication 1 decisions).published id Database.empty) =
      some (sweptSlice decisions) := currentSlice_published (consistent_empty _)
  have hseeds : (proofSeedIds (sweptLines lines)).length ≤ 4000 := by
    refine (length_sortUniq_le _).trans ?_
    rw [List.length_map, List.length_map, List.length_range]
    exact hlines
  have hnodes := length_nodes_sweptSlice hd
  have hedges := length_edges_sweptSlice hd
  refine loadCurrentProofSlice_of_small hdb hcurrent hseeds ?_ ?_ ?_
  · show _ ≤ 4000
    omega
  · show _ ≤ 16384
    omega
  · rw [conflicts_sweptSlice hd]
    exact Nat.zero_le _

/-- The request for the lines is beyond the kernel's limit. -/
theorem maxNodes_lt_length_sweptLines (hd : decisions ≤ 100) (hlines : lines < 4000)
    (hmany : Kernel.maxNodes ≤ lines + 1 + decisions) (target : String) :
    Kernel.maxNodes < (proofRequest id epoch target (sweptLines (lines + 1)) (reachableSlice
      (sweptSlice decisions) (proofSeedIds (sweptLines (lines + 1))))).nodes.length := by
  have hdb : Store.Reachable ((logPublication 1 decisions).published id Database.empty) :=
    reachable_of_publishes Store.Reachable.empty (publishes_empty _)
  have hload := @loads_sweptSlice (lines + 1) decisions hd hlines
  obtain ⟨current, hid, -⟩ := loadCurrentProofSlice_eq_ok.mp hload
  have hslice := closureSlice_of_load hdb.valid hid hload
  have hmissing := @length_missing_sweptLines lines decisions hd (by omega)
  rw [length_nodes_proofRequest hslice, nodes_reachable_sweptSlice hd (by omega),
    length_nodes_sweptSlice hd]
  omega

/-- A slice within the host's limits whose request is beyond the kernel's: ninety-nine records of
    the snapshot, the code target, and the commits that the snapshot does not have. -/
theorem not_within_limits_sweptLines : ∃ db report slice,
    syncLocal id epoch templateParsers Database.empty (decisionLog 1 98) = .ok (report, db) ∧
      loadCurrentProofSlice db (proofSeedIds (sweptLines 4000)) proofSliceLimits =
        .ok (some slice) ∧
      Kernel.maxNodes <
        (proofRequest id epoch "src/lib.rs:1-4000" (sweptLines 4000) slice).nodes.length ∧
      Kernel.validate (proofRequest id epoch "src/lib.rs:1-4000" (sweptLines 4000) slice) =
        .error (.resourceLimit, "evidence slice exceeds the node limit") := by
  obtain ⟨report, hpublish⟩ := @publishes_empty id (logPublication 1 98)
  have hlarge := @maxNodes_lt_length_sweptLines 3999 98 (by omega) (by omega) (by decide)
    "src/lib.rs:1-4000"
  exact ⟨_, report, _, hpublish, loads_sweptSlice (by omega) (by omega), hlarge,
    Kernel.validate_of_node_limit rfl hlarge⟩

/-- That slice has no room for the lines. -/
theorem request_within_limits_iff_swept : ∃ db slice, Store.Reachable db ∧
    loadCurrentProofSlice db (proofSeedIds (sweptLines 4000)) proofSliceLimits =
      .ok (some slice) ∧ ¬ AttachFits id slice (sweptLines 4000) := by
  have hdb : Store.Reachable ((logPublication 1 98).published id Database.empty) :=
    reachable_of_publishes Store.Reachable.empty (publishes_empty _)
  have hload := @loads_sweptSlice 4000 98 (by omega) (by omega)
  have hlarge := @maxNodes_lt_length_sweptLines 3999 98 (by omega) (by omega) (by decide)
    "src/lib.rs:1-4000"
  refine ⟨_, _, hdb, hload, fun hfits => ?_⟩
  have hwithin := (@request_within_limits_iff id epoch _ _ _ hdb hload "src/lib.rs:1-4000").mpr hfits
  exact absurd hwithin.1 hlarge.not_ge

end Exceeded

end Rationale.Engine
