import Rationale.Engine.LocalEvidence
import Rationale.Engine.Plan
import Rationale.Engine.Why
import Rationale.Kernel.SubRequest

namespace Rationale.Engine

open Std Relation Rationale.Library Rationale.Docs Rationale.Git Rationale.Store

/-!
# Proof slices

`why` builds its request from the part of the snapshot that the target's seeds reach.

* `Part` — what the recursive query selects, with the closure that it has;
* `Attached` — a part and its whole after the target was attached to both;
* `subRequest_proofRequest` — the request for the part is a part of the request for the whole;
* `sameAnswer_proofRequest_iff` — the two are answered in the same way exactly when nothing outside
  the part decides.
-/

/-! ### The selected part -/

/-- The rows of a slice that start at a reached record, where nothing leads out of what is reached. -/
structure Part (reached : String → Prop) (slice full : GraphSlice) : Prop where
  nodes : ∀ node, node ∈ slice.nodes ↔ node ∈ full.nodes ∧ reached node.id
  edges : ∀ edge, edge ∈ slice.edges ↔ edge ∈ full.edges ∧ reached edge.sourceId
  conflicts : ∀ conflict, conflict ∈ slice.conflicts ↔
    conflict ∈ full.conflicts ∧ reached conflict.leftNodeId ∧ reached conflict.rightNodeId
  edges_closed : ∀ edge ∈ full.edges, reached edge.sourceId → reached edge.targetId
  conflicts_closed : ∀ conflict ∈ full.conflicts,
    reached conflict.leftNodeId ↔ reached conflict.rightNodeId
  target_mem : ∀ edge ∈ full.edges, ∃ node ∈ full.nodes, node.id = edge.targetId
  nodes_unique : ∀ left ∈ full.nodes, ∀ right ∈ full.nodes, left.id = right.id → left = right
  edges_unique : ∀ left ∈ full.edges, ∀ right ∈ full.edges, left.id = right.id → left = right

/-- Lists that increase in a key do not share keys. -/
theorem unique_of_pairwise_lt {α : Type} {key : α → String} {l : List α}
    (h : l.Pairwise (fun a b => compare (key a) (key b) = .lt)) :
    ∀ a ∈ l, ∀ b ∈ l, key a = key b → a = b := by
  have hnodup : (l.map key).Nodup := List.pairwise_map.mpr (pairwise_key_ne h)
  exact fun a ha b hb => List.inj_on_of_nodup_map hnodup ha hb

/-- **A proof slice** is a part of the current snapshot. -/
theorem part_reachableSlice {db : Database} (hv : Valid db) {id : String}
    (hid : db.current = some id) (seedIds : List String) :
    Part (· ∈ reachable (snapshotSlice db id) seedIds)
      (reachableSlice (snapshotSlice db id) seedIds) (snapshotSlice db id) := by
  obtain ⟨hstored, hclosed⟩ := hv.snapshot_current hid
  have hstep : ∀ a b, SliceStep (snapshotSlice db id) a b →
      a ∈ reachable (snapshotSlice db id) seedIds → b ∈ reachable (snapshotSlice db id) seedIds := by
    intro a b hab ha
    obtain ⟨seed, hseed, hreach⟩ := mem_reachable.mp ha
    exact mem_reachable.mpr ⟨seed, hseed, hreach.tail hab⟩
  constructor
  case nodes => exact fun node => by simp [reachableSlice]
  case edges => exact fun edge => by simp [reachableSlice]
  case conflicts => exact fun conflict => by simp [reachableSlice]
  case edges_closed =>
    intro edge hedge
    exact hstep _ _ (Or.inl ⟨edge, hedge, rfl, rfl⟩)
  case conflicts_closed =>
    intro conflict hmem
    exact ⟨hstep _ _ (Or.inr ⟨conflict, hmem, Or.inl ⟨rfl, rfl⟩⟩),
      hstep _ _ (Or.inr ⟨conflict, hmem, Or.inr ⟨rfl, rfl⟩⟩)⟩
  case target_mem =>
    intro edge hedge
    have hmem := (hclosed.edges edge hedge).2
    obtain ⟨node, hnode, hkey⟩ := hv.records_keyed.mem_iff.mp (hstored.records _ hmem)
    refine ⟨node, (mem_memberRecords hv.records_keyed).mpr ⟨?_, ?_⟩, hkey⟩
    · rwa [hkey]
    · exact hv.records_keyed.mem_values_iff.mp hnode
  case nodes_unique => exact unique_of_pairwise_lt (memberRecords_pairwise hv.records_keyed _)
  case edges_unique => exact unique_of_pairwise_lt (memberEdges_pairwise hv.edges_keyed _)

section Maps

variable {reached : String → Prop} {slice full : GraphSlice} (h : Part reached slice full)

include h

theorem Part.getElem?_nodes {k : String} {node : EvidenceNode} :
    (Graph.ofSlice slice).nodes[k]? = some node ↔
      (Graph.ofSlice full).nodes[k]? = some node ∧ reached k := by
  have hunique : ∀ left ∈ slice.nodes, ∀ right ∈ slice.nodes, left.id = right.id → left = right :=
    fun left hl right hr => h.nodes_unique left ((h.nodes left).mp hl).1 right ((h.nodes right).mp hr).1
  unfold Graph.ofSlice
  rw [getElem?_indexBy_of_unique hunique, getElem?_indexBy_of_unique h.nodes_unique, h.nodes]
  constructor
  · rintro ⟨⟨hmem, hreached⟩, rfl⟩
    exact ⟨⟨hmem, rfl⟩, hreached⟩
  · rintro ⟨⟨hmem, rfl⟩, hreached⟩
    exact ⟨⟨hmem, hreached⟩, rfl⟩

theorem Part.getElem?_edges {k : String} {edge : EvidenceEdge} :
    (Graph.ofSlice slice).edges[k]? = some edge ↔
      (Graph.ofSlice full).edges[k]? = some edge ∧ reached edge.sourceId := by
  have hunique : ∀ left ∈ slice.edges, ∀ right ∈ slice.edges, left.id = right.id → left = right :=
    fun left hl right hr => h.edges_unique left ((h.edges left).mp hl).1 right ((h.edges right).mp hr).1
  unfold Graph.ofSlice
  rw [getElem?_indexBy_of_unique hunique, getElem?_indexBy_of_unique h.edges_unique, h.edges,
    and_right_comm]

/-- A record under a reached identifier is stored in both or in none, so it is added to both or to
    none. -/
theorem Part.or_find? {more : List EvidenceNode} (hmore : ∀ node ∈ more, reached node.id)
    {k : String} {node : EvidenceNode}
    (hnode : ((Graph.ofSlice slice).nodes[k]?).or (more.find? (·.id = k)) = some node) :
    ((Graph.ofSlice full).nodes[k]?).or (more.find? (·.id = k)) = some node := by
  rcases Option.or_eq_some_iff.mp hnode with hstored | ⟨hnone, hfound⟩
  · rw [(h.getElem?_nodes.mp hstored).1, Option.some_or]
  · have hid : node.id = k := by simpa using List.find?_some hfound
    have hreached : reached k := hid ▸ hmore node (List.mem_of_find?_eq_some hfound)
    have hnone' : (Graph.ofSlice full).nodes[k]? = none := by
      rw [Option.eq_none_iff_forall_ne_some] at hnone ⊢
      exact fun other hother => hnone other (h.getElem?_nodes.mpr ⟨hother, hreached⟩)
    rw [hnone', Option.none_or]
    exact hfound

theorem Part.mem_nodes {k : String} :
    k ∈ (Graph.ofSlice slice).nodes ↔ k ∈ (Graph.ofSlice full).nodes ∧ reached k := by
  rw [← ExtTreeMap.isSome_getElem?_iff_mem, ← ExtTreeMap.isSome_getElem?_iff_mem,
    Option.isSome_iff_exists, Option.isSome_iff_exists]
  simp only [h.getElem?_nodes, exists_and_right]

omit h in
theorem mem_edges_of_getElem? {k : String} {edge : EvidenceEdge}
    (hedge : (Graph.ofSlice slice).edges[k]? = some edge) : edge ∈ slice.edges := by
  rcases mem_or_of_getElem?_insertAll hedge with ⟨hmem, -⟩ | hempty
  · exact hmem
  · simp at hempty

/-- The edges of a part lead to its records. -/
theorem Part.target_mem_nodes {edge : EvidenceEdge} (hedge : edge ∈ slice.edges) :
    edge.targetId ∈ (Graph.ofSlice slice).nodes := by
  obtain ⟨hfull, hreached⟩ := (h.edges edge).mp hedge
  obtain ⟨target, htarget, htargetId⟩ := h.target_mem edge hfull
  exact h.mem_nodes.mpr ⟨mem_indexBy.mpr ⟨target, htarget, htargetId⟩,
    h.edges_closed edge hfull hreached⟩

end Maps

/-! ### Attaching the target to both -/

/-- The graphs of a part and of the whole, with the target attached. -/
structure Attached (reached : String → Prop) (targetId : String) (slice full : Graph) : Prop where
  keyed : KeyedBy EvidenceNode.id slice.nodes
  nodes : ∀ (k : String) node, slice.nodes[k]? = some node → full.nodes[k]? = some node
  known : ∀ k ∈ slice.nodes, reached k ∨ k = targetId
  edges : ∀ (k : String) edge, slice.edges[k]? = some edge → full.edges[k]? = some edge
  edges_out : ∀ (k : String) edge, full.edges[k]? = some edge → reached edge.sourceId →
    edge.sourceId ≠ targetId → slice.edges[k]? = some edge

/-- A code target's edges go into both graphs. -/
theorem foldl_attachAttribution {hash : String → String} {codeId : String} {origin : Origin}
    {introducedBy : List LineAttribution} {graph : Graph} :
    introducedBy.foldl (attachAttribution hash codeId origin) graph =
      ⟨insertNewAll EvidenceNode.id graph.nodes (introducedBy.map (attributedNode ·.commitId)),
        insertAll EvidenceEdge.id graph.edges (introducedBy.map fun attribution =>
          evidenceEdge hash .introducedBy codeId attribution.commitId origin)⟩ := by
  induction introducedBy generalizing graph with
  | nil => rfl
  | cons attribution introducedBy ih =>
    rw [List.foldl_cons, ih]
    rfl

/-- Within one commit a reference is determined by its kind and target. -/
theorem reference_eq {hash : String → String} {commit : CommitEvidence} {edge edge' : EvidenceEdge}
    (hedge : edge ∈ commitReferenceEdges hash commit)
    (hedge' : edge' ∈ commitReferenceEdges hash commit) (hsame : SameRelation edge edge') :
    edge = edge' := by
  have hmem : ∀ e ∈ commitReferenceEdges hash commit,
      e ∈ [commit].flatMap (commitReferenceEdges hash) := fun e he =>
    List.mem_flatMap.mpr ⟨commit, List.mem_singleton_self commit, he⟩
  rw [exists_of_mem_commitReferenceEdges (hmem edge hedge),
    exists_of_mem_commitReferenceEdges (hmem edge' hedge'), hsame.kind, hsame.source, hsame.target]

/-- References leave their commit. -/
theorem reference_sourceId {hash : String → String} {commit : CommitEvidence} {edge : EvidenceEdge}
    (hedge : edge ∈ commitReferenceEdges hash commit) : edge.sourceId = commit.id := by
  obtain ⟨reference, -, hkind⟩ := List.mem_filterMap.mp hedge
  obtain ⟨kind, -, rfl⟩ := Option.map_eq_some_iff.mp hkind
  rfl

/-- The references of a commit go into a graph that has their targets. -/
theorem edges_attachCommitReferences {hash : String → String} {commit : CommitEvidence}
    {graph : Graph} : (attachCommitReferences hash commit graph).edges =
      insertAll EvidenceEdge.id graph.edges ((commitReferenceEdges hash commit).filter
        (fun edge => graph.nodes.contains edge.targetId)) := by
  unfold insertAll
  rw [List.foldl_filter]
  rfl

/-- They replace what is there under their identifiers. -/
theorem getElem?_edges_attachCommitReferences {hash : String → String} {commit : CommitEvidence}
    (hids : DerivedIds (commitReferenceEdges hash commit)) {graph : Graph} {k : String}
    {edge : EvidenceEdge} : (attachCommitReferences hash commit graph).edges[k]? = some edge ↔
      (edge ∈ commitReferenceEdges hash commit ∧ edge.targetId ∈ graph.nodes) ∧ edge.id = k ∨
      (∀ other ∈ commitReferenceEdges hash commit, other.targetId ∈ graph.nodes → other.id ≠ k) ∧
        graph.edges[k]? = some edge := by
  have hunique : ∀ edge ∈ (commitReferenceEdges hash commit).filter
        (fun edge => graph.nodes.contains edge.targetId),
      ∀ other ∈ (commitReferenceEdges hash commit).filter
        (fun edge => graph.nodes.contains edge.targetId), edge.id = other.id → edge = other := by
    intro edge hedge other hother hid
    have hmem := (List.mem_filter.mp hedge).1
    have hmem' := (List.mem_filter.mp hother).1
    exact reference_eq hmem hmem' (hids edge hmem other hmem' hid)
  rw [edges_attachCommitReferences, getElem?_insertAll_of_unique hunique]
  simp only [List.mem_filter, ExtTreeMap.contains_iff_mem, and_imp]

section Attach

variable {hash : String → String} {timestamp : Int → Option String} {reached : String → Prop}
  {slice full : GraphSlice} (h : Part reached slice full)

include h

/-- A code target: its node and edges are new, and the commits that it names are reached. -/
theorem attached_lines {codeId : String} {origin : Origin} {code : EvidenceNode}
    (hcode : code.id = codeId) {introducedBy : List LineAttribution}
    (hseeds : ∀ attribution ∈ introducedBy, reached attribution.commitId) :
    Attached reached codeId
      (introducedBy.foldl (attachAttribution hash codeId origin)
        ⟨(Graph.ofSlice slice).nodes.insert codeId code, (Graph.ofSlice slice).edges⟩)
      (introducedBy.foldl (attachAttribution hash codeId origin)
        ⟨(Graph.ofSlice full).nodes.insert codeId code, (Graph.ofSlice full).edges⟩) := by
  subst hcode
  rw [foldl_attachAttribution, foldl_attachAttribution]
  let attributed := introducedBy.map (attributedNode ·.commitId)
  let introduced := introducedBy.map fun attribution =>
    evidenceEdge hash .introducedBy code.id attribution.commitId origin
  have hintroduced : ∀ edge ∈ introduced, edge.sourceId = code.id := by
    intro edge hedge
    obtain ⟨attribution, -, rfl⟩ := List.mem_map.mp hedge
    rfl
  have hattributed : ∀ node ∈ attributed, reached node.id := by
    intro node hnode
    obtain ⟨attribution, hmem, rfl⟩ := List.mem_map.mp hnode
    exact hseeds attribution hmem
  constructor
  -- the code node goes in first, so no attributed commit can take its identifier
  case keyed =>
    have hkeyed : KeyedBy EvidenceNode.id ((Graph.ofSlice slice).nodes.insert code.id code) :=
      @KeyedBy.insertAll _ _ _ _ _ (Graph.ofSlice slice).nodes [code] _ _ keyedBy_indexBy
    exact hkeyed.insertNewAll
  case nodes =>
    intro k node hnode
    rw [getElem?_insertNewAll, ExtTreeMap.getElem?_insert] at hnode ⊢
    by_cases hk : compare code.id k = .eq
    · rwa [if_pos hk] at hnode ⊢
    rw [if_neg hk] at hnode ⊢
    exact h.or_find? hattributed hnode
  case known =>
    intro k hk
    rcases mem_insertNewAll.mp hk with hk | ⟨node, hnode, rfl⟩
    · rcases ExtTreeMap.mem_insert.mp hk with heq | hmem
      · exact Or.inr (Std.compare_eq_iff_eq.mp heq).symm
      · exact Or.inl (h.mem_nodes.mp hmem).2
    · exact Or.inl (hattributed node hnode)
  case edges =>
    intro k edge hedge
    rw [getElem?_insertAll] at hedge ⊢
    rcases Option.or_eq_some_iff.mp hedge with hfound | ⟨hnone, hstored⟩
    · -- an edge of the target itself: it shadows what is stored, in both graphs
      rw [hfound, Option.some_or]
    · rw [hnone, Option.none_or]
      exact (h.getElem?_edges.mp hstored).1
  case edges_out =>
    intro k edge hedge hreached hne
    rw [getElem?_insertAll] at hedge ⊢
    rcases Option.or_eq_some_iff.mp hedge with hfound | ⟨hnone, hstored⟩
    · -- an edge of the target leaves it, so it has no other source
      exact absurd (hintroduced edge (List.mem_reverse.mp (List.mem_of_find?_eq_some hfound))) hne
    · rw [hnone, Option.none_or]
      exact h.getElem?_edges.mpr ⟨hstored, hreached⟩

/-- A commit: it is a seed, and its references go to the records that are present.  Edges with one
    identifier are the same relation, so what is overwritten in the whole is overwritten in the
    part. -/
theorem attached_commit {commit : CommitEvidence} (hseed : reached commit.id)
    (hids : DerivedIds (slice.edges ++ commitReferenceEdges hash commit)) :
    Attached reached commit.id
      (attachCommitReferences hash commit { Graph.ofSlice slice with
        nodes := (Graph.ofSlice slice).nodes.insertIfNew commit.id (commitNode timestamp commit) })
      (attachCommitReferences hash commit { Graph.ofSlice full with
        nodes := (Graph.ofSlice full).nodes.insertIfNew commit.id (commitNode timestamp commit) }) := by
  let node := commitNode timestamp commit
  let part : StringMap EvidenceNode :=
    insertNewAll EvidenceNode.id (Graph.ofSlice slice).nodes [node]
  let whole : StringMap EvidenceNode :=
    insertNewAll EvidenceNode.id (Graph.ofSlice full).nodes [node]
  have hreferences : DerivedIds (commitReferenceEdges hash commit) := fun e he e' he' =>
    hids e (List.mem_append_right _ he) e' (List.mem_append_right _ he')
  have hnodes : ∀ (k : String) node, part[k]? = some node → whole[k]? = some node := by
    intro k other hother
    rw [getElem?_insertNewAll] at hother ⊢
    refine h.or_find? (fun node hnode => ?_) hother
    rw [List.mem_singleton.mp hnode]
    exact hseed
  have hwider : ∀ k ∈ part, k ∈ whole := fun k => mem_of_grows hnodes
  constructor
  case keyed =>
    exact @KeyedBy.insertNewAll _ _ _ _ _ (Graph.ofSlice slice).nodes [node] _ _ keyedBy_indexBy
  case nodes => exact hnodes
  case known =>
    intro k hk
    rcases ExtTreeMap.mem_insertIfNew.mp hk with heq | hmem
    · exact Or.inr (Std.compare_eq_iff_eq.mp heq).symm
    · exact Or.inl (h.mem_nodes.mp hmem).2
  case edges =>
    intro k edge hedge
    rw [getElem?_edges_attachCommitReferences hreferences] at hedge ⊢
    rcases hedge with ⟨⟨hmem, htarget⟩, hkey⟩ | ⟨hnone, hstored⟩
    · -- a reference whose target the part has is attached to the whole as well
      exact Or.inl ⟨⟨hmem, hwider _ htarget⟩, hkey⟩
    · -- a reference that replaces the edge in the whole is the same relation, so the part, which has
      -- the target of the edge, has the target of the reference
      obtain ⟨hfull, hreached⟩ := h.getElem?_edges.mp hstored
      refine Or.inr ⟨fun other hmem _ hother => ?_, hfull⟩
      have hkey : edge.id = k := keyedBy_indexBy k edge hfull
      have hslice := mem_edges_of_getElem? hstored
      have hsame := hids edge (List.mem_append_left _ hslice) other (List.mem_append_right _ hmem)
        (hkey.trans hother.symm)
      have htarget : other.targetId ∈ part :=
        mem_insertNewAll.mpr (Or.inl (hsame.target ▸ h.target_mem_nodes hslice))
      exact hnone other hmem htarget hother
  case edges_out =>
    intro k edge hedge hreached hne
    rw [getElem?_edges_attachCommitReferences hreferences] at hedge ⊢
    rcases hedge with ⟨⟨hmem, -⟩, -⟩ | ⟨hnone, hstored⟩
    · -- references leave the target
      exact absurd (reference_sourceId hmem) hne
    · -- what no reference of the whole replaces, none of the part does
      exact Or.inr ⟨fun other hmem htarget => hnone other hmem (hwider _ htarget),
        h.getElem?_edges.mpr ⟨hstored, hreached⟩⟩

/-- Whatever the target, it is attached to both in the same way. -/
theorem attached_attachTarget {evidence : ResolvedTarget}
    (hseeds : ∀ seed ∈ proofSeedIds evidence, reached seed)
    (hids : ∀ commit, evidence = .commit commit →
      DerivedIds (slice.edges ++ commitReferenceEdges hash commit)) :
    Attached reached (attachTarget hash timestamp evidence (Graph.ofSlice full)).1
      (attachTarget hash timestamp evidence (Graph.ofSlice slice)).2
      (attachTarget hash timestamp evidence (Graph.ofSlice full)).2 := by
  cases evidence with
  | commit commit =>
    exact attached_commit h (hseeds commit.id (List.mem_singleton_self _)) (hids commit rfl)
  | lines path startLine endLine revision introducedBy changedBy =>
    have hcode : (⟨codeTargetId hash path startLine endLine revision, .codeTarget, .current, none,
        none, codeTargetOrigin path startLine endLine revision⟩ : EvidenceNode).id =
          codeTargetId hash path startLine endLine revision := rfl
    refine attached_lines h hcode (fun attribution hattribution => ?_)
    exact hseeds _ (mem_sortUniq.mpr (List.mem_map_of_mem hattribution))

/-- **The request for the part is a part of the request for the whole.** -/
theorem subRequest_proofRequest (target : String) {evidence : ResolvedTarget}
    (hseeds : ∀ seed ∈ proofSeedIds evidence, reached seed)
    (hids : ∀ commit, evidence = .commit commit →
      DerivedIds (slice.edges ++ commitReferenceEdges hash commit)) :
    Kernel.SubRequest (proofRequest hash timestamp target evidence slice)
      (proofRequest hash timestamp target evidence full) := by
  have hattached := @attached_attachTarget hash timestamp _ _ _ h evidence hseeds hids
  have hgoal : (proofRequest hash timestamp target evidence slice).goal =
      (proofRequest hash timestamp target evidence full).goal := by
    cases evidence <;> rfl
  have hknown : ∀ id, Kernel.Known (proofRequest hash timestamp target evidence slice) id →
      reached id ∨ id = (proofRequest hash timestamp target evidence full).goal.targetId := by
    rintro id ⟨node, hnode, rfl⟩
    obtain ⟨k, hk⟩ : ∃ k : String, (attachTarget hash timestamp evidence
        (Graph.ofSlice slice)).2.nodes[k]? = some node := mem_values.mp hnode
    have hmem : k ∈ (attachTarget hash timestamp evidence (Graph.ofSlice slice)).2.nodes :=
      ExtTreeMap.isSome_getElem?_iff_mem.mp (by rw [hk]; rfl)
    rw [hattached.keyed k node hk]
    exact hattached.known k hmem
  constructor
  case goal => exact hgoal
  case nodes =>
    intro node hnode
    obtain ⟨k, hk⟩ := mem_values.mp hnode
    exact mem_values.mpr ⟨k, hattached.nodes k node hk⟩
  case edges =>
    intro edge hedge
    obtain ⟨k, hk⟩ := mem_values.mp hedge
    exact mem_values.mpr ⟨k, hattached.edges k edge hk⟩
  case conflicts => exact fun conflict hconflict => ((h.conflicts conflict).mp hconflict).1
  case edges_out =>
    intro edge hedge hsource hne
    obtain ⟨k, hk⟩ := mem_values.mp hedge
    have hreached := (hknown _ hsource).resolve_right hne
    exact mem_values.mpr ⟨k, hattached.edges_out k edge hk hreached hne⟩
  case conflicts_between =>
    intro conflict hconflict hleft hright hne
    have hiff := h.conflicts_closed conflict hconflict
    -- one end is not the target, so it is reached, and then so is the other one
    have hreached : reached conflict.leftNodeId := by
      rcases hknown _ hleft with hreached | htarget
      · exact hreached
      · refine hiff.mpr ((hknown _ hright).resolve_right (fun heq => hne ?_))
        rw [htarget, heq]
    exact (h.conflicts conflict).mpr ⟨hconflict, hreached, hiff.mp hreached⟩

end Attach

/-! ### Decisions that a commit follows -/

/-- A commit whose message names a decision. -/
def decidingCommit : CommitEvidence := ⟨"c0ffee", "Follow ADR-1", 0, [⟨.decision, "ADR-1"⟩]⟩

/-- This commit, an unrelated one, and these documents. -/
def decidedPublication (documents : List DocumentInput) : Publication :=
  localPublication id (fun _ => none) decisionParsers
    ⟨⟨[decidingCommit, secondCommit], true⟩, documents, [], "now"⟩

def decidedSlice (documents : List DocumentInput) : GraphSlice :=
  (decidedPublication documents).slice id

/-- What is asked about the commit. -/
def decidedRequest (slice : GraphSlice) : KernelRequest :=
  proofRequest id (fun _ => none) "commit:c0ffee" (.commit decidingCommit) slice

/-- The reference of the commit to the decision. -/
def followedEdge : EvidenceEdge :=
  evidenceEdge id .documents "c0ffee" "ADR-1" ⟨.git, "commit:c0ffee#message", some "c0ffee", none⟩

/-- The commit is explained by the decision. -/
def followedProof : ProofResult :=
  ⟨.established, [⟨["c0ffee", "ADR-1"], [followedEdge.id],
    ["edge.current", "path.admissible", "anchor.current"]⟩], [], []⟩

/-- Nothing explains the commit. -/
def unexplainedProof : ProofResult :=
  ⟨.notEstablished, [], [⟨.changeToReview, some "c0ffee", some .review⟩], []⟩

/-- What the evaluator answers about the commit. -/
def decidedAnswer (slice : GraphSlice) (proof : ProofResult) : KernelResponse :=
  .proof 1 (queryId id slice.snapshotId "commit:c0ffee") slice.snapshotId proof

/-- The decision, by itself. -/
def standingDecision : List DocumentInput := [decisionDocument "adr-1.md" acceptedText]

/-- The decision, and one that supersedes it. -/
def supersededDecision : List DocumentInput :=
  [decisionDocument "adr-1.md" acceptedText, decisionDocument "adr-2.md" successorText]

/-! ### The answers -/

/-- **Proof slices.** When the requests for the proof slice and for the complete snapshot both get a
    proof, the proofs say the same exactly when nothing outside the slice decides. -/
theorem sameAnswer_proofRequest_iff {hash : String → String} {timestamp : Int → Option String}
    {db : Database} (hdb : Store.Reachable db) {target : String} {evidence : ResolvedTarget}
    {limits limits' : SliceLimits} {slice full : GraphSlice}
    (hslice : loadCurrentProofSlice db (proofSeedIds evidence) limits = .ok (some slice))
    (hfull : loadCurrentSlice db limits' = .ok (some full))
    (hids : ∀ commit, evidence = .commit commit →
      DerivedIds (slice.edges ++ commitReferenceEdges hash commit))
    {version version' : Int} {requestId requestId' snapshotId snapshotId' : String}
    {proof proof' : ProofResult}
    (hs : Kernel.evaluate (proofRequest hash timestamp target evidence slice) =
      some (.proof version requestId snapshotId proof))
    (hf : Kernel.evaluate (proofRequest hash timestamp target evidence full) =
      some (.proof version' requestId' snapshotId' proof')) :
    Kernel.SameAnswer proof proof' ↔
      Kernel.NothingDecisive (proofRequest hash timestamp target evidence slice)
        (proofRequest hash timestamp target evidence full) := by
  obtain ⟨id, hid, -, -, -, -, rfl⟩ := loadCurrentProofSlice_eq_ok.mp hslice
  obtain ⟨-, -, -, heq⟩ := (loadCurrentSlice_eq_ok hid).mp hfull
  obtain rfl := Option.some.inj heq
  have hpart := part_reachableSlice hdb.valid hid (proofSeedIds evidence)
  have hseeds : ∀ seed ∈ proofSeedIds evidence,
      seed ∈ reachable (snapshotSlice db id) (proofSeedIds evidence) :=
    fun seed hseed => mem_reachable.mpr ⟨seed, hseed, ReflTransGen.refl⟩
  exact Kernel.sameAnswer_iff hs hf (subRequest_proofRequest hpart target hseeds hids)

/-- What is read after a first publication. -/
theorem loads_published {hash : String → String} {p : Publication} {seedIds : List String}
    {limits : SliceLimits} (hseeds : seedIds.length ≤ limits.maxNodes)
    (hfits : (reachable (p.slice hash) seedIds).length ≤ limits.maxNodes ∧
      (reachableSlice (p.slice hash) seedIds).edges.length ≤ limits.maxEdges ∧
      (reachableSlice (p.slice hash) seedIds).conflicts.length ≤ limits.maxConflicts) :
    ∃ db, Store.Reachable db ∧
      loadCurrentProofSlice db seedIds limits =
        .ok (some (reachableSlice (p.slice hash) seedIds)) ∧
      ∃ limits, loadCurrentSlice db limits = .ok (some (p.slice hash)) := by
  have hcurrent : currentSlice (p.published hash Database.empty) = some (p.slice hash) :=
    currentSlice_published (consistent_empty p)
  exact ⟨_, reachable_of_publishes Store.Reachable.empty (publishes_empty p),
    loadCurrentProofSlice_of_currentSlice hcurrent hseeds hfits.1 hfits.2.1 hfits.2.2,
    exists_loadCurrentSlice hcurrent⟩

/-- What is read after the documents were published. -/
theorem loads_decidedSlice {documents : List DocumentInput}
    (hfits : (reachable (decidedSlice documents) ["c0ffee"]).length ≤ 4000 ∧
      (reachableSlice (decidedSlice documents) ["c0ffee"]).edges.length ≤ 16384 ∧
      (reachableSlice (decidedSlice documents) ["c0ffee"]).conflicts.length ≤ 4096) :
    ∃ db, Store.Reachable db ∧
      loadCurrentProofSlice db (proofSeedIds (.commit decidingCommit)) proofSliceLimits =
        .ok (some (reachableSlice (decidedSlice documents) ["c0ffee"])) ∧
      ∃ limits, loadCurrentSlice db limits = .ok (some (decidedSlice documents)) := by
  have hseeds : (proofSeedIds (.commit decidingCommit)).length ≤ proofSliceLimits.maxNodes := by
    show 1 ≤ 4000
    omega
  exact loads_published hseeds hfits

set_option maxRecDepth 8000

/-- While the decision stands, what the slice leaves out decides nothing. -/
theorem nothingDecisive_standingDecision :
    Kernel.NothingDecisive
      (decidedRequest (reachableSlice (decidedSlice standingDecision) ["c0ffee"]))
      (decidedRequest (decidedSlice standingDecision)) := by
  obtain ⟨db, hdb, hslice, limits, hfull⟩ := @loads_decidedSlice standingDecision
    (by decide)
  have hids : DerivedIds ((reachableSlice (decidedSlice standingDecision) ["c0ffee"]).edges ++
      commitReferenceEdges id decidingCommit) := by
    have hall : ∀ edge ∈ (reachableSlice (decidedSlice standingDecision) ["c0ffee"]).edges ++
        commitReferenceEdges id decidingCommit, edge = followedEdge := by
      decide
    exact derivedIds_of_forall_eq hall
  have hs : Kernel.evaluate
      (decidedRequest (reachableSlice (decidedSlice standingDecision) ["c0ffee"])) =
        some (decidedAnswer (decidedSlice standingDecision) followedProof) := by
    decide
  have hf : Kernel.evaluate (decidedRequest (decidedSlice standingDecision)) =
      some (decidedAnswer (decidedSlice standingDecision) followedProof) := by
    decide
  refine (sameAnswer_proofRequest_iff hdb hslice hfull ?_ hs hf).mp ⟨rfl, rfl, rfl⟩
  rintro commit ⟨⟩
  exact hids

/-- A decision that has been superseded still explains the commit in the slice, which does not
    reach the decision that supersedes it.  The complete snapshot explains nothing. -/
theorem not_sameAnswer_supersededDecision :
    ∃ db slice full limits, Store.Reachable db ∧
      loadCurrentProofSlice db (proofSeedIds (.commit decidingCommit)) proofSliceLimits =
        .ok (some slice) ∧
      loadCurrentSlice db limits = .ok (some full) ∧
      DerivedIds (full.edges ++ commitReferenceEdges id decidingCommit) ∧
      Kernel.evaluate (decidedRequest slice) = some (decidedAnswer slice followedProof) ∧
      Kernel.evaluate (decidedRequest full) = some (decidedAnswer full unexplainedProof) ∧
      ¬ Kernel.SameAnswer followedProof unexplainedProof := by
  obtain ⟨db, hdb, hslice, limits, hfull⟩ := @loads_decidedSlice supersededDecision
    (by decide)
  have hids : ∀ e ∈ (decidedSlice supersededDecision).edges ++
      commitReferenceEdges id decidingCommit,
      ∀ e' ∈ (decidedSlice supersededDecision).edges ++ commitReferenceEdges id decidingCommit,
      e.id = e'.id → e = e' := by
    decide
  refine ⟨db, _, _, limits, hdb, hslice, hfull, ?_, by decide, by decide, ?_⟩
  · intro e he e' he' hid
    rw [hids e he e' he' hid]
    exact ⟨rfl, rfl, rfl, rfl⟩
  · exact fun h => nomatch h.verdict

end Rationale.Engine
